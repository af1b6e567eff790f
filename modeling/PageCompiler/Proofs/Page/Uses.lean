import PageCompiler.Proofs.Page.Copy

/-!
# What a node looks up

The generation of a node asks its scope for definitions: those that its references name, and those
that the attributes of its instances are given to. `Node.uses` lists what is written in a node; new
keys leave the list as it is, and a filled slot adds what the children use.

Not every attribute of an instance asks whether there is a definition of its name: a plain value
becomes the default of the definition if there is one, and nothing else comes of it. An element is
generated only if there is such a prop, a reference is looked up only then, and an object is only
rejected if there is such a state.

* `Node.uses_claimKeys`, `mem_uses_copy`: copies of components.
* `mem_uses_withChildren`: filled trees.
-/

namespace PageCompiler

/-- Something that a node asks its scope for. -/
inductive Use where
  /-- The definition that a reference names. -/
  | definition (reference : Reference)
  /-- The same, of a reference that stands in the tree. -/
  | shown (reference : Reference)
  /-- The definitions of an instance of a component. -/
  | inst (component : String)
  /-- The definition that a reference passes on to an instance. -/
  | passed (reference : Reference)
  /-- The prop that an attribute of an instance is given to. -/
  | givenProp (component name : String)
  /-- The state that an attribute of an instance is given to. -/
  | givenState (component name : String)

/-! ## Uses of styles -/

/-- What a style value uses. -/
def StyleValue.uses : StyleValue → List Use
  | .dynamic r => [.definition r]
  | .constant _ => []

/-- What styles use. -/
def StyleMap.uses (styles : StyleMap) : List Use := styles.flatMap (·.2.uses)

/-- What a referenced style uses. -/
def ReferencedStyle.uses (s : ReferencedStyle) : List Use :=
  match s.content with
  | .inlined _ styles => styles.uses
  | _ => []

/-- What all styles of an element use. -/
def Element.styleUses (e : Element) : List Use :=
  e.style.uses ++ e.referencedStyles.flatMap (·.2.uses)

/-! ## Uses of instances -/

/-- What an attribute of a name uses by being given to an instance of a component. -/
def Attribute.givenUses (component name : String) : Attribute → List Use
  | .dynamic r => [.givenProp component name, .passed r]
  | .element _ => [.givenProp component name]
  | .object _ => [.givenState component name]
  | _ => []

/-- What attributes use by being given to an instance of a component. -/
def attributesGiven (component : String) (attrs : Attributes) : List Use :=
  attrs.flatMap fun entry => entry.2.givenUses component entry.1

/-- What an element uses besides the references in its attributes and children: an instance does
without its styles. -/
def Element.ownUses (e : Element) : List Use :=
  if e.isInstance then .inst e.componentName :: attributesGiven e.componentName e.attrs
  else e.styleUses

theorem Element.ownUses_instance {e : Element} (he : e.isInstance = true) :
    e.ownUses = .inst e.componentName :: attributesGiven e.componentName e.attrs := if_pos he

theorem Element.ownUses_tag {e : Element} (he : e.isInstance = false) :
    e.ownUses = e.styleUses := if_neg (by simp [he])

/-! ## Uses of nodes -/

/-- What the reference of a conditional uses. -/
def conditionUses : Node → List Use
  | .dynamic r => if r.scope = .prop then [.definition r] else []
  | _ => []

mutual

/-- What a node uses. -/
def Node.uses : Node → List Use
  | .dynamic r => [.shown r]
  | .element content => content.uses
  | .conditional content => content.uses
  | _ => []

/-- What a conditional uses. -/
def Conditional.uses : Conditional → List Use
  | ⟨node, reference, _, _⟩ => conditionUses reference ++ node.uses

/-- What an element uses: by itself, in its attributes and in its children. -/
def Element.uses : Element → List Use
  | ⟨key, elementType, name, semanticType, dependency, attrs, events, style, referencedStyles,
      abilities, children, selfClosing⟩ =>
    Element.ownUses ⟨key, elementType, name, semanticType, dependency, attrs, events, style,
        referencedStyles, abilities, children, selfClosing⟩
      ++ (attributesUses attrs ++ nodesUses children)

/-- What a list of nodes uses. -/
def nodesUses : List Node → List Use
  | [] => []
  | node :: rest => node.uses ++ nodesUses rest

/-- What a list of attributes uses. -/
def attributesUses : List (String × Attribute) → List Use
  | [] => []
  | (_, value) :: rest => value.uses ++ attributesUses rest

/-- What an attribute uses. -/
def Attribute.uses : Attribute → List Use
  | .dynamic r => [.definition r]
  | .element content => content.uses
  | _ => []

end

theorem Element.uses_eq (e : Element) :
    e.uses = e.ownUses ++ (attributesUses e.attrs ++ nodesUses e.children) := by
  cases e
  rfl

theorem Conditional.uses_eq (q : Conditional) :
    q.uses = conditionUses q.reference ++ q.node.uses := by
  cases q
  rfl

theorem Element.mem_uses {e : Element} {u : Use} : u ∈ e.uses ↔
    u ∈ e.ownUses ∨ u ∈ attributesUses e.attrs ∨ u ∈ nodesUses e.children := by
  rw [uses_eq, List.mem_append, List.mem_append]

theorem mem_nodesUses {nodes : List Node} {u : Use} :
    u ∈ nodesUses nodes ↔ ∃ node ∈ nodes, u ∈ node.uses := by
  induction nodes with
  | nil => simp [nodesUses]
  | cons node rest ih => simp [nodesUses, ih]

theorem mem_attributesUses {attrs : Attributes} {u : Use} :
    u ∈ attributesUses attrs ↔ ∃ entry ∈ attrs, u ∈ entry.2.uses := by
  induction attrs with
  | nil => simp [attributesUses]
  | cons entry rest ih => simp [attributesUses, ih]

/-- What a component uses in its tree and in the defaults of its definitions. -/
def Component.uses (c : Component) : List Use :=
  nodesUses (c.node :: (defaultNodes c.props ++ stateNodes c.states))

/-! ## Uses of a copy -/

theorem attributesGiven_claimKeys (component : String) (attrs : List (String × Attribute))
    (l : KeyLedger) :
    attributesGiven component (attributesUpdateM (.ofElement claimKey) attrs l).1
      = attributesGiven component attrs := by
  induction attrs generalizing l with
  | nil => rfl
  | cons entry rest ih =>
    obtain ⟨name, value⟩ := entry
    refine congrArg₂ (· ++ ·) ?_ (ih _)
    cases value <;> rfl

mutual

/-- New keys make no difference to what is used. -/
theorem Node.uses_claimKeys : (node : Node) → (l : KeyLedger) →
    (node.claimKeys l).1.uses = node.uses
  | .element content, l => content.uses_claimKeys l
  | .conditional content, l => content.uses_claimKeys l
  | .slot _, _ => rfl
  | .repetition _, _ => rfl
  | .constant _, _ => rfl
  | .dynamic _, _ => rfl
  | .raw _, _ => rfl
  | .inject _, _ => rfl
  | .expr _, _ => rfl

theorem Conditional.uses_claimKeys : (q : Conditional) → (l : KeyLedger) →
    (q.updateM (.ofElement claimKey) l).1.uses = q.uses
  | ⟨node, reference, _, _⟩, l => congrArg (conditionUses reference ++ ·) (node.uses_claimKeys l)

theorem Element.uses_claimKeys : (e : Element) → (l : KeyLedger) →
    (e.updateM (.ofElement claimKey) l).1.uses = e.uses
  | ⟨_, elementType, name, semanticType, dependency, attrs, _, _, _, _, children, _⟩, _ => by
    rw [Element.uses_eq, Element.uses_eq]
    refine congrArg₂ (· ++ ·) ?_
      (congrArg₂ (· ++ ·) (attributesUses_claimKeys attrs _) (nodesUses_claimKeys children _))
    unfold Element.ownUses
    exact congrArg (fun given : List Use => ite _ (_ :: given) _)
      (attributesGiven_claimKeys _ attrs _)

theorem nodesUses_claimKeys : (nodes : List Node) → (l : KeyLedger) →
    nodesUses (nodesUpdateM (.ofElement claimKey) nodes l).1 = nodesUses nodes
  | [], _ => rfl
  | node :: rest, l =>
    congrArg₂ (· ++ ·) (node.uses_claimKeys l) (nodesUses_claimKeys rest _)

theorem attributesUses_claimKeys : (attrs : List (String × Attribute)) → (l : KeyLedger) →
    attributesUses (attributesUpdateM (.ofElement claimKey) attrs l).1 = attributesUses attrs
  | [], _ => rfl
  | (_, value) :: rest, l =>
    congrArg₂ (· ++ ·) (value.uses_claimKeys l) (attributesUses_claimKeys rest _)

theorem Attribute.uses_claimKeys : (value : Attribute) → (l : KeyLedger) →
    (value.updateM (.ofElement claimKey) l).1.uses = value.uses
  | .element content, l => content.uses_claimKeys l
  | .constant _, _ => rfl
  | .dynamic _, _ => rfl
  | .raw _, _ => rfl
  | .imported _, _ => rfl
  | .expr _, _ => rfl
  | .object _, _ => rfl

end

section Copy

variable (c : Context) (external : Component)

theorem uses_copy_node : (c.instantiate external).node.uses = external.node.uses :=
  external.node.uses_claimKeys _

/-- **A copy uses what its component uses,** in its tree and in its defaults. -/
theorem mem_uses_copy {node : Node}
    (h : node = (c.instantiate external).node ∨
      node ∈ defaultNodes (c.instantiate external).props ∨
      node ∈ stateNodes (c.instantiate external).states) {u : Use} (hu : u ∈ node.uses) :
    u ∈ external.uses := by
  rw [Component.uses, mem_nodesUses]
  rcases h with rfl | hprop | hstate
  · rw [uses_copy_node] at hu
    exact ⟨_, List.mem_cons_self, hu⟩
  · obtain ⟨entry, hentry, hdefault⟩ := mem_defaultNodes.1 hprop
    obtain ⟨original, horiginal, l, rfl⟩ := exists_of_mem_claimDefaultKeys hentry hdefault
    rw [original.uses_claimKeys] at hu
    exact ⟨original, List.mem_cons_of_mem _ (List.mem_append_left _ horiginal), hu⟩
  · exact ⟨node, List.mem_cons_of_mem _ (List.mem_append_right _ hstate), hu⟩

end Copy

/-! ## Uses of a filled tree -/

theorem nodesUses_append (nodes rest : List Node) :
    nodesUses (nodes ++ rest) = nodesUses nodes ++ nodesUses rest := by
  induction nodes with
  | nil => rfl
  | cons node nodes ih => simp [nodesUses, ih]

section Fill

variable {own : List Node} {u : Use}

mutual

/-- **A filled tree** uses what the tree and the children use. -/
theorem Node.mem_uses_fillSlot : {node node' : Node} → node.fillSlot own = some node' →
    u ∈ node'.uses → u ∈ nodesUses own ∨ u ∈ node.uses
  | .element e, node', h, hu => by
    rw [Node.fillSlot, Option.map_eq_some_iff] at h
    obtain ⟨e', he, rfl⟩ := h
    exact e.mem_uses_fillSlot he hu
  | .conditional q, node', h, hu => by
    rw [Node.fillSlot, Option.map_eq_some_iff] at h
    obtain ⟨q', hq, rfl⟩ := h
    exact q.mem_uses_fillSlot hq hu
  | .repetition r, node', h, hu => by
    rw [Node.fillSlot, Option.map_eq_some_iff] at h
    obtain ⟨r', -, rfl⟩ := h
    cases hu

theorem Conditional.mem_uses_fillSlot : (q : Conditional) → {q' : Conditional} →
    q.fillSlot own = some q' → u ∈ q'.uses → u ∈ nodesUses own ∨ u ∈ q.uses
  | ⟨node, reference, _, _⟩, q', h, hu => by
    rw [Conditional.fillSlot, Option.map_eq_some_iff] at h
    obtain ⟨node', hnode, rfl⟩ := h
    rw [Conditional.uses_eq, List.mem_append] at hu ⊢
    rcases hu with hreference | hu
    · exact Or.inr (Or.inl hreference)
    · exact (Node.mem_uses_fillSlot hnode hu).imp_right Or.inr

theorem Element.mem_uses_fillSlot : (e : Element) → {e' : Element} →
    e.fillSlot own = some e' → u ∈ e'.uses → u ∈ nodesUses own ∨ u ∈ e.uses
  | ⟨_, _, _, _, _, _, _, _, _, _, children, _⟩, e', h, hu => by
    rw [Element.fillSlot, Option.map_eq_some_iff] at h
    obtain ⟨children', hchildren, rfl⟩ := h
    rw [Element.mem_uses] at hu ⊢
    rcases hu with hself | hattr | hu
    · exact Or.inr (Or.inl hself)
    · exact Or.inr (Or.inr (Or.inl hattr))
    · exact (mem_nodesUses_fillSlot hchildren hu).imp_right fun h => Or.inr (Or.inr h)

theorem mem_nodesUses_fillSlot : {nodes nodes' : List Node} →
    nodesFillSlot own nodes = some nodes' → u ∈ nodesUses nodes' →
      u ∈ nodesUses own ∨ u ∈ nodesUses nodes
  | node :: rest, nodes', h, hu => by
    by_cases hslot : ∃ slot, node = .slot slot
    · obtain ⟨slot, rfl⟩ := hslot
      rw [nodesFillSlot] at h
      cases h
      rw [nodesUses_append] at hu
      exact (List.mem_append.1 hu).imp_right (List.mem_append_right _)
    · rw [nodesFillSlot_cons (by simpa using hslot)] at h
      rw [nodesUses, List.mem_append]
      split at h
      · rename_i node' hnode
        cases h
        rcases List.mem_append.1 hu with hu | hrest
        · exact (Node.mem_uses_fillSlot hnode hu).imp_right Or.inl
        · exact Or.inr (Or.inr hrest)
      · rw [Option.map_eq_some_iff] at h
        obtain ⟨rest', hrest, rfl⟩ := h
        rcases List.mem_append.1 hu with hu | hu
        · exact Or.inr (Or.inl hu)
        · exact (mem_nodesUses_fillSlot hrest hu).imp_right Or.inr

end

theorem mem_uses_withChildren {node : Node} (h : u ∈ (node.withChildren own).uses) :
    u ∈ nodesUses own ∨ u ∈ node.uses := by
  unfold Node.withChildren at h
  split at h
  · exact Or.inr h
  · rcases hfill : node.fillSlot own with _ | filled
    · rw [hfill] at h
      exact Or.inr h
    · rw [hfill] at h
      exact Node.mem_uses_fillSlot hfill h

end Fill

end PageCompiler
