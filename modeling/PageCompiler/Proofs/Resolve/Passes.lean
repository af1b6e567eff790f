import PageCompiler.Proofs.Dict
import PageCompiler.Proofs.Document.Passes
import PageCompiler.Proofs.Document.Walk
import PageCompiler.Resolve.Component

/-!
# The passes of a resolution

What each pass over a tree does to the links in it, and to the trees that stand in it.

* `Node.unlinked_wrapLinks`: no element has a link once links are carried out, and a tree without
  links stays as it is (`Node.wrapLinks_eq`). No later pass brings links in.
* `Element.KeepsChildren`: an element whose children every pass goes on into. What stands below such
  elements is resolved as if it stood alone.
-/

namespace PageCompiler

/-! ## Links -/

/-- The link of an element. -/
def Element.link? (e : Element) : Option LinkAbility := e.abilities.bind (·.link)

/-- An element without a link. -/
def Element.Unlinked (e : Element) : Prop := e.link? = none

instance (e : Element) : Decidable e.Unlinked := inferInstanceAs (Decidable (e.link? = none))

/-- A tree without links. -/
def Node.Unlinked (node : Node) : Prop := ∀ e ∈ node.elements, e.Unlinked

/-- An attribute without links. -/
def Attribute.Unlinked (value : Attribute) : Prop := ∀ e ∈ value.elements, e.Unlinked

theorem own_unlinked : Own Element.Unlinked := fun _ _ _ h => h

section Links

variable (o : Options)

theorem nodesWrapLinks_eq_map (nodes : List Node) :
    nodesWrapLinks o nodes = nodes.map (Node.wrapLinks o) := by
  induction nodes with
  | nil => rfl
  | cons node rest ih => rw [nodesWrapLinks, ih, List.map_cons]

/-- An element without a link is not put into another one. -/
theorem Element.wrapLinks_of_unlinked {e : Element} (h : e.Unlinked) :
    e.wrapLinks o = { e with
      attrs := attributesWrapLinks o e.attrs, children := nodesWrapLinks o e.children } := by
  obtain ⟨key, elementType, name, semanticType, dependency, attrs, events, style, referencedStyles,
    _ | ⟨_ | link⟩, children, selfClosing⟩ := e
  · rw [Element.wrapLinks]
  · rw [Element.wrapLinks]
  · cases h

mutual

/-- **Carrying out the links of a tree leaves none.** -/
theorem Node.unlinked_wrapLinks : (node : Node) → (node.wrapLinks o).Unlinked
  | .slot content => content.unlinked_wrapLinks
  | .element content => content.unlinked_wrapLinks
  | .conditional content => content.unlinked_wrapLinks
  | .repetition content => content.unlinked_wrapLinks
  | .constant _ => fun _ h => by cases h
  | .dynamic _ => fun _ h => by cases h
  | .raw _ => fun _ h => by cases h
  | .inject _ => fun _ h => by cases h
  | .expr _ => fun _ h => by cases h

theorem Slot.unlinked_wrapLinks : (slot : Slot) → ∀ e ∈ (slot.wrapLinks o).elements, e.Unlinked
  | ⟨_, none⟩ => fun _ h => by cases h
  | ⟨_, some node⟩ => node.unlinked_wrapLinks

theorem Conditional.unlinked_wrapLinks : (q : Conditional) →
    ∀ e ∈ (q.wrapLinks o).elements, e.Unlinked
  | ⟨node, _, _, _⟩ => node.unlinked_wrapLinks

theorem Repetition.unlinked_wrapLinks : (r : Repetition) →
    ∀ e ∈ (r.wrapLinks o).elements, e.Unlinked
  | ⟨node, _, _⟩ => node.unlinked_wrapLinks

theorem Element.unlinked_wrapLinks : (e : Element) → ∀ x ∈ (e.wrapLinks o).elements, x.Unlinked
  | ⟨_, _, _, _, _, attrs, _, _, _, none, children, _⟩ =>
    List.forall_mem_cons.2 ⟨rfl, List.forall_mem_append.2
      ⟨attributes_unlinked_wrapLinks attrs, nodes_unlinked_wrapLinks children⟩⟩
  | ⟨_, _, _, _, _, attrs, _, _, _, some ⟨none⟩, children, _⟩ =>
    List.forall_mem_cons.2 ⟨rfl, List.forall_mem_append.2
      ⟨attributes_unlinked_wrapLinks attrs, nodes_unlinked_wrapLinks children⟩⟩
  | ⟨key, elementType, name, semanticType, dependency, attrs, events, style, referencedStyles,
      some ⟨some link⟩, children, selfClosing⟩ => by
    obtain ⟨hwrapper, hattrs⟩ := link.unlinked_wrapper key
    rw [Element.wrapLinks, Element.forall_elements, ← forall_attributesElements]
    refine ⟨hwrapper, hattrs, List.forall_mem_singleton.2 ?_⟩
    exact List.forall_mem_cons.2 ⟨rfl, List.forall_mem_append.2
      ⟨attributes_unlinked_wrapLinks attrs, nodes_unlinked_wrapLinks children⟩⟩

theorem LinkAbility.unlinked_wrapper : (link : LinkAbility) → (key : String) →
    (link.wrapper o key).Unlinked ∧
      ∀ e ∈ attributesElements (link.wrapper o key).attrs, e.Unlinked
  | .url url newTab, key => by
    have hurl : ∀ e ∈ (url.wrapLinks o).elements ++ attributesElements [], e.Unlinked :=
      List.forall_mem_append.2 ⟨url.unlinked_wrapLinks, fun _ h => by cases h⟩
    rw [LinkAbility.wrapper]
    cases newTab
    · exact ⟨rfl, hurl⟩
    · exact ⟨rfl, hurl⟩
  | .anchor _, _ => ⟨rfl, fun _ h => by cases h⟩
  | .route _, _ => ⟨rfl, fun _ h => by cases h⟩
  | .mail _ _ _, _ => ⟨rfl, fun _ h => by cases h⟩
  | .phone _, _ => ⟨rfl, fun _ h => by cases h⟩

theorem nodes_unlinked_wrapLinks : (nodes : List Node) →
    ∀ e ∈ nodesElements (nodesWrapLinks o nodes), e.Unlinked
  | [] => fun _ h => by cases h
  | node :: rest =>
    List.forall_mem_append.2 ⟨node.unlinked_wrapLinks, nodes_unlinked_wrapLinks rest⟩

theorem attributes_unlinked_wrapLinks : (attrs : List (String × Attribute)) →
    ∀ e ∈ attributesElements (attributesWrapLinks o attrs), e.Unlinked
  | [] => fun _ h => by cases h
  | (_, value) :: rest =>
    List.forall_mem_append.2 ⟨value.unlinked_wrapLinks, attributes_unlinked_wrapLinks rest⟩

theorem Attribute.unlinked_wrapLinks : (value : Attribute) →
    ∀ e ∈ (value.wrapLinks o).elements, e.Unlinked
  | .element content => content.unlinked_wrapLinks
  | .constant _ => fun _ h => by cases h
  | .dynamic _ => fun _ h => by cases h
  | .raw _ => fun _ h => by cases h
  | .imported _ => fun _ h => by cases h
  | .expr _ => fun _ h => by cases h
  | .object _ => fun _ h => by cases h

end

mutual

/-- A tree without links stays as it is. -/
theorem Node.wrapLinks_eq : (node : Node) → node.Unlinked → node.wrapLinks o = node
  | .slot content, h => congrArg Node.slot (content.wrapLinks_eq h)
  | .element content, h => congrArg Node.element (content.wrapLinks_eq h)
  | .conditional content, h => congrArg Node.conditional (content.wrapLinks_eq h)
  | .repetition content, h => congrArg Node.repetition (content.wrapLinks_eq h)
  | .constant _, _ => rfl
  | .dynamic _, _ => rfl
  | .raw _, _ => rfl
  | .inject _, _ => rfl
  | .expr _, _ => rfl

theorem Slot.wrapLinks_eq : (slot : Slot) → (∀ e ∈ slot.elements, e.Unlinked) →
    slot.wrapLinks o = slot
  | ⟨_, none⟩, _ => rfl
  | ⟨_, some node⟩, h => by rw [Slot.wrapLinks, node.wrapLinks_eq h]

theorem Conditional.wrapLinks_eq : (q : Conditional) → (∀ e ∈ q.elements, e.Unlinked) →
    q.wrapLinks o = q
  | ⟨node, _, _, _⟩, h => by rw [Conditional.wrapLinks, node.wrapLinks_eq h]

theorem Repetition.wrapLinks_eq : (r : Repetition) → (∀ e ∈ r.elements, e.Unlinked) →
    r.wrapLinks o = r
  | ⟨node, _, _⟩, h => by rw [Repetition.wrapLinks, node.wrapLinks_eq h]

theorem Element.wrapLinks_eq : (e : Element) → (∀ x ∈ e.elements, x.Unlinked) →
    e.wrapLinks o = e
  | ⟨_, _, _, _, _, attrs, _, _, _, abilities, children, _⟩, h => by
    rw [Element.elements, List.forall_mem_cons, List.forall_mem_append] at h
    rw [Element.wrapLinks_of_unlinked o h.1, attributesWrapLinks_eq attrs h.2.1,
      nodesWrapLinks_eq children h.2.2]

theorem nodesWrapLinks_eq : (nodes : List Node) → (∀ e ∈ nodesElements nodes, e.Unlinked) →
    nodesWrapLinks o nodes = nodes
  | [], _ => rfl
  | node :: rest, h => by
    rw [nodesElements, List.forall_mem_append] at h
    rw [nodesWrapLinks, node.wrapLinks_eq h.1, nodesWrapLinks_eq rest h.2]

theorem attributesWrapLinks_eq : (attrs : List (String × Attribute)) →
    (∀ e ∈ attributesElements attrs, e.Unlinked) → attributesWrapLinks o attrs = attrs
  | [], _ => rfl
  | (_, value) :: rest, h => by
    rw [attributesElements, List.forall_mem_append] at h
    rw [attributesWrapLinks, value.wrapLinks_eq h.1, attributesWrapLinks_eq rest h.2]

theorem Attribute.wrapLinks_eq : (value : Attribute) → (∀ e ∈ value.elements, e.Unlinked) →
    value.wrapLinks o = value
  | .element content, h => congrArg Attribute.element (content.wrapLinks_eq h)
  | .constant _, _ => rfl
  | .dynamic _, _ => rfl
  | .raw _, _ => rfl
  | .imported _, _ => rfl
  | .expr _, _ => rfl
  | .object _, _ => rfl

end

end Links

/-! ## Styles -/

section Styles

variable {f : Element → Element}

/-- A change of elements without links keeps a tree without links. -/
theorem Node.unlinked_mapElements (hf : ∀ e, (f e).abilities = e.abilities) {node : Node}
    (h : node.Unlinked) : (node.mapElements f).Unlinked := by
  have hv : Visitor.Relates (m := Id) (.ofElement fun e => pure (f e))
      fun e e' => e'.abilities = e.abilities := fun e => Returns.of_id fun _ _ => hf e
  have hrelated := (node.returns hv).id
  intro e' he'
  obtain ⟨e, he, hsame⟩ := exists_of_forall₂_right hrelated he'
  rw [Element.Unlinked, Element.link?, hsame]
  exact h e he

/-- A change that leaves all elements of a tree leaves the tree. -/
theorem Node.mapElements_eq {node : Node} (h : ∀ e ∈ node.elements, f e = e) :
    node.mapElements f = node :=
  node.updateM_fixed (m := Id) (fun _ => rfl) h

end Styles

/-! ## Embedded markup -/

mutual

theorem Html.Dom.unlinked_toNode : (piece : Html.Dom) → ∀ node ∈ piece.toNode?, node.Unlinked
  | .text s => by
    intro node hnode
    rw [Html.Dom.toNode?] at hnode
    split at hnode
    · cases hnode
    · cases hnode
      exact fun _ h => by cases h
  | .comment => fun _ h => by cases h
  | .element name attrs children => by
    intro node hnode
    cases hnode
    refine Element.forall_elements.2 ⟨rfl, fun entry hentry => ?_, ?_⟩
    · change entry ∈ Dict.merge [] _ at hentry
      obtain hentry | hentry := Dict.mem_merge hentry
      · cases hentry
      · obtain ⟨a, -, rfl⟩ := List.mem_map.1 hentry
        exact fun _ h => by cases h
    · dsimp only
      split
      · exact List.forall_mem_singleton.2 fun _ h => by cases h
      · exact unlinked_domNodes children

theorem unlinked_domNodes : (pieces : List Html.Dom) → ∀ node ∈ domNodes pieces, node.Unlinked
  | [] => fun _ h => by cases h
  | piece :: rest => List.forall_mem_append.2
    ⟨fun node hnode => piece.unlinked_toNode node (Option.mem_toList.1 hnode),
      unlinked_domNodes rest⟩

end

mutual

theorem Html.Dom.unlinked_contents : (piece : Html.Dom) → ∀ node ∈ piece.contents, node.Unlinked
  | .element name attrs children => by
    rw [Html.Dom.contents]
    split
    · exact unlinked_domContents children
    · exact fun node hnode => Html.Dom.unlinked_toNode _ node (Option.mem_toList.1 hnode)
  | .text s => fun node hnode => Html.Dom.unlinked_toNode _ node (Option.mem_toList.1 hnode)
  | .comment => fun _ h => by cases h

theorem unlinked_domContents : (pieces : List Html.Dom) →
    ∀ node ∈ domContents pieces, node.Unlinked
  | [] => fun _ h => by cases h
  | piece :: rest => List.forall_mem_append.2
    ⟨piece.unlinked_contents, unlinked_domContents rest⟩

end

/-- Embedded markup brings no links in. -/
theorem keepsAll_embed : KeepsAll Element.Unlinked Element.embed := by
  intro e he
  rw [Element.embed]
  split
  · obtain ⟨hown, hattrs, -⟩ := Element.forall_elements.1 he
    refine Element.forall_elements.2 ⟨hown, fun entry hentry => ?_, unlinked_domContents _⟩
    exact hattrs entry (List.mem_of_mem_filter hentry)
  · exact he

theorem Element.embed_of_ne {e : Element} (h : e.elementType ≠ embeddingType) : e.embed = e := by
  rw [Element.embed, Element.embeddedHtml?, if_neg h]

/-! ## The mapping -/

section Filling

variable {p : Element → Prop}

mutual

/-- What is put at the mark of a template, and the template around it, keep their properties. -/
theorem Node.fill_keeps (hp : Own p) : (node : Node) → {own : List Node} →
    (∀ x ∈ node.elements, p x) → (∀ x ∈ nodesElements own, p x) →
    (∀ x ∈ nodesElements (node.fill own).1, p x) ∧ ∀ x ∈ nodesElements (node.fill own).2, p x
  | .element content, own, h, hown => by
    obtain ⟨hfilled, hleft⟩ := content.fill_keeps hp h hown
    rw [Node.fill]
    exact ⟨List.forall_mem_append.2 ⟨hfilled, fun _ h => by cases h⟩, hleft⟩
  | .dynamic reference, own, _, hown => by
    rw [Node.fill]
    split
    · exact ⟨hown, fun _ h => by cases h⟩
    · exact ⟨fun _ h => (by cases h), hown⟩
  | .slot content, own, h, hown => by
    rw [Node.fill]
    exact ⟨List.forall_mem_append.2 ⟨h, fun _ h => by cases h⟩, hown⟩
  | .conditional content, own, h, hown => by
    rw [Node.fill]
    exact ⟨List.forall_mem_append.2 ⟨h, fun _ h => by cases h⟩, hown⟩
  | .repetition content, own, h, hown => by
    rw [Node.fill]
    exact ⟨List.forall_mem_append.2 ⟨h, fun _ h => by cases h⟩, hown⟩
  | .constant _, own, _, hown => ⟨fun _ h => (by cases h), hown⟩
  | .raw _, own, _, hown => ⟨fun _ h => (by cases h), hown⟩
  | .inject _, own, _, hown => ⟨fun _ h => (by cases h), hown⟩
  | .expr _, own, _, hown => ⟨fun _ h => (by cases h), hown⟩

theorem Element.fill_keeps (hp : Own p) : (e : Element) → {own : List Node} →
    (∀ x ∈ e.elements, p x) → (∀ x ∈ nodesElements own, p x) →
    (∀ x ∈ (e.fill own).1.elements, p x) ∧ ∀ x ∈ nodesElements (e.fill own).2, p x
  | ⟨_, _, _, _, _, attrs, _, _, _, _, children, _⟩, own, h, hown => by
    rw [Element.elements, List.forall_mem_cons, List.forall_mem_append] at h
    obtain ⟨hfilled, hleft⟩ := nodes_fill_keeps hp children h.2.2 hown
    rw [Element.fill]
    exact ⟨List.forall_mem_cons.2 ⟨hp _ _ _ h.1, List.forall_mem_append.2 ⟨h.2.1, hfilled⟩⟩, hleft⟩

theorem nodes_fill_keeps (hp : Own p) : (nodes : List Node) → {own : List Node} →
    (∀ x ∈ nodesElements nodes, p x) → (∀ x ∈ nodesElements own, p x) →
    (∀ x ∈ nodesElements (nodesFill nodes own).1, p x) ∧
      ∀ x ∈ nodesElements (nodesFill nodes own).2, p x
  | [], own, _, hown => ⟨fun _ h => (by cases h), hown⟩
  | node :: rest, own, h, hown => by
    rw [nodesElements, List.forall_mem_append] at h
    obtain ⟨hfilled, hleft⟩ := node.fill_keeps hp h.1 hown
    obtain ⟨hothers, hleft⟩ := nodes_fill_keeps hp rest h.2 hleft
    refine ⟨forall_nodesElements.2 fun x hx => ?_, hleft⟩
    rcases List.mem_append.1 hx with hx | hx
    · exact forall_nodesElements.1 hfilled x hx
    · exact forall_nodesElements.1 hothers x hx

end

end Filling

section Attributes

variable {α : Type} {P : α → Prop}

theorem forall_insert {d : Dict α} {key : String} {value : α} (hd : ∀ entry ∈ d, P entry.2)
    (hvalue : P value) : ∀ entry ∈ Dict.insert d key value, P entry.2 := by
  intro entry hentry
  rcases Dict.mem_insert hentry with rfl | hentry
  · exact hvalue
  · exact hd entry hentry

theorem forall_erase {d : Dict α} {key : String} (hd : ∀ entry ∈ d, P entry.2) :
    ∀ entry ∈ Dict.erase d key, P entry.2 :=
  fun entry hentry => hd entry (List.mem_of_mem_filter hentry)

theorem forall_renameEntries {names : Dict String} {d : Dict α} (hd : ∀ entry ∈ d, P entry.2) :
    ∀ entry ∈ renameEntries d names, P entry.2 := by
  induction names generalizing d with
  | nil => exact hd
  | cons name rest ih =>
    refine ih ?_
    rw [renameEntry]
    split
    · rename_i value hvalue
      exact forall_insert (forall_erase hd) (hd _ (Dict.mem_of_get? hvalue))
    · exact hd

theorem forall_takeOver {P : Attribute → Prop} {own : Attributes} {entry : String × Attribute}
    (hown : ∀ x ∈ own, P x.2) (hentry : P entry.2) : ∀ x ∈ takeOver own entry, P x.2 := by
  have hlacking : ∀ x ∈ Dict.insertNew own entry.1 entry.2, P x.2 := by
    rw [Dict.insertNew]
    split
    · exact hown
    · exact forall_insert hown hentry
  rw [takeOver]
  split
  · split
    · split
      · rename_i value hvalue
        exact forall_insert (forall_erase hown) (hown _ (Dict.mem_of_get? hvalue))
      · exact hown
    · exact hlacking
  · exact hlacking

theorem forall_foldl_takeOver {P : Attribute → Prop} {attrs own : Attributes}
    (hown : ∀ x ∈ own, P x.2) (hattrs : ∀ x ∈ attrs, P x.2) :
    ∀ x ∈ attrs.foldl takeOver own, P x.2 := by
  induction attrs generalizing own with
  | nil => exact hown
  | cons entry rest ih =>
    rw [List.forall_mem_cons] at hattrs
    exact ih (forall_takeOver hown hattrs.1) hattrs.2

theorem Attribute.elements_place (assets : Assets) (value : Attribute) :
    (value.place assets).elements = value.elements := by
  rcases value with (_ | _ | _) | _ | _ | _ | _ | _ | _ <;> rfl

theorem forall_modify {P : Attribute → Prop} (assets : Assets) (names : List String)
    (hplace : ∀ value, P value → P (value.place assets)) {attrs : Attributes}
    (h : ∀ entry ∈ attrs, P entry.2) : ∀ entry ∈ names.foldl
      (fun attrs name => Dict.modify attrs name (·.place assets)) attrs, P entry.2 := by
  induction names generalizing attrs with
  | nil => exact h
  | cons name rest ih =>
    refine ih fun entry' hentry' => ?_
    obtain ⟨entry, hentry, rfl⟩ := List.mem_map.1 hentry'
    split
    · exact hplace _ (h entry hentry)
    · exact h entry hentry

theorem forall_place {p : Element → Prop} (assets : Assets) (names : List String)
    {attrs : Attributes} (h : ∀ entry ∈ attrs, ∀ x ∈ entry.2.elements, p x) :
    ∀ entry ∈ names.foldl (fun attrs name => Dict.modify attrs name (·.place assets)) attrs,
      ∀ x ∈ entry.2.elements, p x :=
  forall_modify (P := fun value => ∀ x ∈ value.elements, p x) assets names
    (fun value hvalue => by rwa [Attribute.elements_place]) h

end Attributes

/-- The entries of a mapping bring no links in. -/
def Mapping.Unlinked (mapping : Mapping) : Prop :=
  ∀ entry ∈ mapping.elements, (∀ x ∈ attributesElements entry.2.attrs, x.Unlinked) ∧
    ∀ x ∈ nodesElements (entry.2.children.getD []), x.Unlinked

instance (mapping : Mapping) : Decidable mapping.Unlinked :=
  inferInstanceAs (Decidable (∀ entry ∈ mapping.elements, _ ∧ _))

/-- Applying a mapping without links keeps elements without links. -/
theorem keepsAll_applyMapping {mapping : Mapping} (h : mapping.Unlinked) (o : Options) :
    KeepsAll Element.Unlinked (Element.applyMapping mapping o) := by
  intro e he
  obtain ⟨hown, hattrs, hchildren⟩ := Element.forall_elements.1 he
  rw [Element.applyMapping]
  split
  · rename_i m hm
    obtain ⟨hmattrs, hmchildren⟩ := h _ (Dict.mem_of_get? hm)
    refine Element.forall_elements.2 ⟨hown, ?_, ?_⟩
    · exact forall_place _ _ (forall_renameEntries (P := Attribute.Unlinked)
        (forall_foldl_takeOver (P := Attribute.Unlinked) hattrs
          (forall_attributesElements.1 hmattrs)))
    · dsimp only [ElementMapping.apply]
      split
      · rename_i template htemplate
        rw [htemplate] at hmchildren
        exact forall_nodesElements.1 (nodes_fill_keeps own_unlinked template hmchildren
          (forall_nodesElements.2 hchildren)).1
      · exact hchildren
  · exact Element.forall_elements.2 ⟨hown, forall_place _ _ (forall_renameEntries
      (P := Attribute.Unlinked) hattrs), hchildren⟩

/-! ## New keys and names -/

section Numbering

variable {σ : Type}

/-- A walk that goes on with a state makes one tree of another, from some state on. -/
def Node.Walked (v : Visitor (StateM σ)) (node node' : Node) : Prop :=
  ∃ s, (node.updateM v s).1 = node'

/-- A tree with keys of its own for the elements, and with names for the data sources of its
repetitions. -/
def Node.Numbered (node node' : Node) : Prop :=
  ∃ keyed, node.Walked (.ofElement claimKey) keyed ∧ keyed.Walked (.ofNames nameSource) node'

/-- Keys and names bring no links in. -/
theorem Node.Numbered.unlinked {node node' : Node} (h : node.Numbered node')
    (hnode : node.Unlinked) : node'.Unlinked := by
  have hwalked : ∀ {σ : Type} {v : Visitor (StateM σ)}, (∀ e s, (v.element e s).1.abilities
      = e.abilities) → ∀ {a b : Node}, a.Walked v b → a.Unlinked → b.Unlinked := by
    rintro σ v hv a - ⟨s, rfl⟩ ha e' he'
    have hrelates : v.Relates fun e e' => e'.abilities = e.abilities :=
      fun e => Returns.of_state fun s _ _ => hv e s
    obtain ⟨e, he, hsame⟩ := exists_of_forall₂_right ((a.returns hrelates).state s) he'
    rw [Element.Unlinked, Element.link?, hsame]
    exact ha e he
  obtain ⟨keyed, hkeyed, hnamed⟩ := h
  exact hwalked (fun _ _ => rfl) hnamed (hwalked (fun _ _ => rfl) hkeyed hnode)

theorem exists_mem_nodesUpdateM (v : Visitor (StateM σ)) {nodes : List Node} {node : Node}
    (h : node ∈ nodes) (s : σ) : ∃ node' ∈ (nodesUpdateM v nodes s).1, node.Walked v node' := by
  induction nodes generalizing s with
  | nil => cases h
  | cons first rest ih =>
    rcases List.mem_cons.1 h with rfl | h
    · exact ⟨_, List.mem_cons_self, s, rfl⟩
    · obtain ⟨node', hmem, hnode⟩ := ih h (first.updateM v s).2
      exact ⟨node', List.mem_cons_of_mem _ hmem, hnode⟩

theorem carries_walked (v : Visitor (StateM σ)) :
    Carries (Node.Walked v) (fun _ => True) fun _ => True where
  slot := by
    rintro name node after ⟨s, rfl⟩
    exact ⟨(node.updateM v s).1, rfl, s, rfl⟩
  conditional := by
    rintro ⟨node, _, _, _⟩ after ⟨s, rfl⟩
    exact ⟨_, rfl, s, rfl⟩
  repetition := by
    rintro ⟨node, source, names⟩ after ⟨s, rfl⟩
    exact ⟨_, rfl, (v.names ⟨node, source, names⟩ s).2, rfl⟩
  element := by
    rintro ⟨_, _, _, _, _, _, _, _, _, _, children, _⟩ after - ⟨s, rfl⟩
    exact ⟨_, rfl, trivial, fun node hnode => exists_mem_nodesUpdateM v hnode _⟩

theorem Node.Holds.numbered {tree inner after : Node} (h : tree.Holds (fun _ => True) inner)
    (hafter : tree.Numbered after) :
    ∃ inner', after.Holds (fun _ => True) inner' ∧ inner.Numbered inner' := by
  obtain ⟨keyed, hkeyed, hnamed⟩ := hafter
  obtain ⟨innerKeyed, hholds, hinnerKeyed⟩ := (carries_walked _).holds h hkeyed
  obtain ⟨inner', hholds, hinner⟩ := (carries_walked _).holds hholds hnamed
  exact ⟨inner', hholds, innerKeyed, hinnerKeyed, hinner⟩

end Numbering

/-! ## Everywhere in a tree -/

/-- An element whose children all passes go on into: it has no link that is put around it, no
embedded markup in place of its children, and no template for them in the mapping. -/
def Element.KeepsChildren (mapping : Mapping) (e : Element) : Prop :=
  e.Unlinked ∧ e.elementType ≠ embeddingType ∧
    (Dict.get? mapping.elements e.elementType).bind (·.children) = none

/-- What the passes over the tree of a component make of a tree, before keys are given. -/
def Node.Normalizes (mapping : Mapping) (o : Options) (node node' : Node) : Prop :=
  ∃ embedded, ((node.wrapLinks o).mapElements (Element.resolveStyles o.assets)).Becomes
      Element.embed embedded ∧
    embedded.Becomes (Element.applyMapping mapping o) node'

section Carrying

variable {mapping : Mapping} {o : Options}

theorem carries_wrapLinks : Carries (fun node node' => node.wrapLinks o = node')
    (Element.KeepsChildren mapping) (Element.KeepsChildren mapping) where
  slot := by
    rintro name node after rfl
    exact ⟨_, rfl, rfl⟩
  conditional := by
    rintro ⟨node, _, _, _⟩ after rfl
    exact ⟨_, rfl, rfl⟩
  repetition := by
    rintro ⟨node, _, _⟩ after rfl
    exact ⟨_, rfl, rfl⟩
  element := by
    rintro e after hkeeps rfl
    refine ⟨_, congrArg Node.element (e.wrapLinks_of_unlinked o hkeeps.1), hkeeps,
      fun node hnode => ⟨node.wrapLinks o, ?_, rfl⟩⟩
    dsimp only
    rw [nodesWrapLinks_eq_map]
    exact List.mem_map_of_mem hnode

theorem carries_resolveStyles {assets : Assets} :
    Carries (fun node node' => node.mapElements (Element.resolveStyles assets) = node')
      (Element.KeepsChildren mapping) (Element.KeepsChildren mapping) where
  slot := by
    rintro name node after rfl
    exact ⟨_, rfl, rfl⟩
  conditional := by
    rintro ⟨node, _, _, _⟩ after rfl
    exact ⟨_, rfl, rfl⟩
  repetition := by
    rintro ⟨node, _, _⟩ after rfl
    exact ⟨_, rfl, rfl⟩
  element := by
    rintro ⟨key, elementType, name, semanticType, dependency, attrs, events, style,
      referencedStyles, abilities, children, selfClosing⟩ after hkeeps rfl
    refine ⟨_, rfl, hkeeps, fun node hnode => ⟨_, ?_, rfl⟩⟩
    induction children with
    | nil => cases hnode
    | cons first rest ih =>
      rcases List.mem_cons.1 hnode with rfl | hnode
      · exact List.mem_cons_self
      · exact List.mem_cons_of_mem _ (ih hkeeps hnode)

theorem carries_embed : Carries (Node.Becomes Element.embed)
    (Element.KeepsChildren mapping) (Element.KeepsChildren mapping) :=
  carries_becomes fun e hkeeps => by
    rw [e.embed_of_ne hkeeps.2.1]
    exact ⟨rfl, fun _ _ => hkeeps⟩

theorem carries_applyMapping : Carries (Node.Becomes (Element.applyMapping mapping o))
    (Element.KeepsChildren mapping) fun _ => True :=
  carries_becomes fun e hkeeps => by
    refine ⟨?_, fun _ _ => trivial⟩
    have htemplate := hkeeps.2.2
    rw [Element.applyMapping]
    split
    · rename_i m hm
      rw [hm, Option.bind_some] at htemplate
      dsimp only [ElementMapping.apply]
      rw [htemplate]
    · rfl

/-- **A tree is normalized alike wherever it stands** below elements that keep their children. -/
theorem Node.Holds.normalizes {tree inner after : Node}
    (h : tree.Holds (Element.KeepsChildren mapping) inner) (hafter : tree.Normalizes mapping o after) :
    ∃ inner', after.Holds (fun _ => True) inner' ∧ inner.Normalizes mapping o inner' := by
  obtain ⟨embedded, hembedded, hmapped⟩ := hafter
  obtain ⟨linked, hholds, rfl⟩ := carries_wrapLinks.holds h rfl
  obtain ⟨styled, hholds, rfl⟩ := carries_resolveStyles.holds hholds rfl
  obtain ⟨innerEmbedded, hholds, hinnerEmbedded⟩ := carries_embed.holds hholds hembedded
  obtain ⟨inner', hholds, hinner⟩ := carries_applyMapping.holds hholds hmapped
  exact ⟨inner', hholds, innerEmbedded, hinnerEmbedded, hinner⟩

/-- No links are left in a normalized tree. -/
theorem Node.Normalizes.unlinked {node node' : Node} (h : node.Normalizes mapping o node')
    (hmapping : mapping.Unlinked) : node'.Unlinked := by
  obtain ⟨embedded, ⟨_, hembedded⟩, _, hmapped⟩ := h
  have hstyled := Node.unlinked_mapElements (f := Element.resolveStyles o.assets) (fun _ => rfl)
    (node.unlinked_wrapLinks o)
  exact Node.transform_keeps own_unlinked (keepsAll_applyMapping hmapping o) hmapped
    (Node.transform_keeps own_unlinked keepsAll_embed hembedded hstyled)

end Carrying

end PageCompiler
