import PageCompiler.Proofs.Resolve.Passes

/-!
# Passes through trees

The steps that make a component ready for a target are passes through its trees. Each of them
changes the elements by themselves and goes on into what hangs below them: the children, and the
trees among the attributes. So what becomes of a tree is known from what a pass does to one element.

* `Element.Via`, `Element.Via.embeddedHtml?`: an element that a pass goes through, and the markup
  that it carries.
* `Goes`: what a pass makes of an element, of a text and of a raw piece; `goes_mapElements`,
  `goes_becomes` and `goes_walked` for the sorts of passes that there are.
* `Enters`, `Enters.comp`: a pass goes on into slots, conditionals and repetitions.
-/

namespace PageCompiler

/-! ## Passes over an element -/

/-- The tree that an attribute holds. -/
def Attribute.node? : Attribute → Option Node
  | .element e => some (.element e)
  | _ => none

/-- The trees among attributes. -/
def attributeNodes (attrs : Attributes) : List Node := attrs.filterMap fun entry => entry.2.node?

/-- A pass changes the tree that an attribute holds, and leaves an attribute without one. -/
structure Attribute.Via (pass : Node → Node → Prop) (value value' : Attribute) : Prop where
  same : value.node? = none → value' = value
  node : Option.Rel pass value.node? value'.node?

/-- A pass goes through attributes one by one. -/
def AttributesVia (pass : Node → Node → Prop) (attrs attrs' : Attributes) : Prop :=
  List.Forall₂ (fun entry entry' => entry'.1 = entry.1 ∧ entry.2.Via pass entry'.2) attrs attrs'

/-- An element that a pass goes through: the pass changes what hangs below it. -/
structure Element.Via (pass : Node → Node → Prop) (e e' : Element) : Prop where
  own : ∃ attrs children, e' = { e with attrs, children }
  attrs : AttributesVia pass e.attrs e'.attrs
  children : List.Forall₂ pass e.children e'.children

section Attributes

variable {pass pass' : Node → Node → Prop} {attrs attrs' : Attributes}

theorem Attribute.Via.of_node {e e' : Element} (h : pass (.element e) (.element e')) :
    (Attribute.element e).Via pass (.element e') :=
  ⟨nofun, .some h⟩

theorem Attribute.Via.of_flat {value : Attribute} (h : value.node? = none) : value.Via pass value :=
  ⟨fun _ => rfl, by rw [h]; exact .none⟩

theorem Element.Via.elementType {e e' : Element} (h : e.Via pass e') :
    e'.elementType = e.elementType := by
  obtain ⟨_, _, rfl⟩ := h.own
  rfl

theorem Element.Via.dependency {e e' : Element} (h : e.Via pass e') :
    e'.dependency = e.dependency := by
  obtain ⟨_, _, rfl⟩ := h.own
  rfl

theorem AttributesVia.nodes (h : AttributesVia pass attrs attrs') :
    List.Forall₂ pass (attributeNodes attrs) (attributeNodes attrs') :=
  List.rel_filterMap (fun _ _ hentry => hentry.2.node) h

/-- Attributes without trees stay as they are. -/
theorem AttributesVia.eq_of_flat (h : AttributesVia pass attrs attrs')
    (hflat : ∀ entry ∈ attrs, entry.2.node? = none) : attrs' = attrs := by
  induction h with
  | nil => rfl
  | @cons entry entry' rest rest' hentry _ ih =>
    rw [List.forall_mem_cons] at hflat
    rw [ih hflat.2, Prod.ext hentry.1 (hentry.2.same hflat.1)]

theorem AttributesVia.filter (h : AttributesVia pass attrs attrs') (p : String → Bool) :
    AttributesVia pass (attrs.filter fun entry => p entry.1)
      (attrs'.filter fun entry => p entry.1) := by
  induction h with
  | nil => exact .nil
  | @cons entry entry' rest rest' hentry _ ih =>
    rw [List.filter_cons, List.filter_cons, hentry.1]
    split
    · exact .cons hentry ih
    · exact ih

/-- A value that holds no tree is the same in changed attributes. -/
theorem AttributesVia.get? (h : AttributesVia pass attrs attrs') (name : String) :
    Option.Rel (Attribute.Via pass) (Dict.get? attrs name) (Dict.get? attrs' name) := by
  induction h with
  | nil => exact .none
  | @cons entry entry' rest rest' hentry _ ih =>
    obtain ⟨k, v⟩ := entry
    obtain ⟨k', v'⟩ := entry'
    obtain ⟨rfl, hvalue⟩ := hentry
    rw [Dict.get?_cons, Dict.get?_cons]
    split
    · exact .some hvalue
    · exact ih

/-- A pass leaves embedded markup as it is. -/
theorem Element.Via.embeddedHtml? {e e' : Element} (h : e.Via pass e') :
    e'.embeddedHtml? = e.embeddedHtml? := by
  have hvalue := h.attrs.get? "html"
  obtain ⟨attrs, children, rfl⟩ := h.own
  rw [Element.embeddedHtml?, Element.embeddedHtml?]
  dsimp only at hvalue ⊢
  split
  · generalize Dict.get? attrs "html" = found' at hvalue
    generalize Dict.get? e.attrs "html" = found at hvalue
    cases hvalue with
    | none => rfl
    | @some value value' hvia =>
      cases value with
      | element y =>
        have hnode := hvia.node
        cases value' with
        | element _ => rfl
        | _ => cases hnode
      | _ =>
        rw [hvia.same rfl]
  · rfl

theorem forall₂_comp {α β γ : Type} {R : α → β → Prop} {S : β → γ → Prop} {l : List α} {m : List β}
    {n : List γ} (h : List.Forall₂ R l m) (h' : List.Forall₂ S m n) :
    List.Forall₂ (Relation.Comp R S) l n := by
  induction h generalizing n with
  | nil =>
    cases h'
    exact .nil
  | cons hab _ ih =>
    cases h' with
    | cons hbc hrest => exact .cons ⟨_, hab, hbc⟩ (ih hrest)

end Attributes

/-! ## The passes -/

section Passes

variable {f : Element → Element}

/-- What a walk that changes elements first does to an element. -/
theorem Node.exists_of_transform_element {e : Element} {fuel : ℕ} {node' : Node}
    (h : (Node.element e).transform f fuel = .ok node') : ∃ below < fuel, ∃ attrs children,
      (f e).attrs.mapM (fun entry => do return (entry.1, ← entry.2.transform f below)) = .ok attrs ∧
      (f e).children.mapM (Node.transform f below) = .ok children ∧
      node' = .element { f e with attrs, children } := by
  rcases fuel with _ | _ | fuel
  · cases h
  · cases h
  · obtain ⟨e', he, h⟩ := exists_of_bind_eq_ok h
    obtain ⟨attrs, hattrs, he⟩ := exists_of_bind_eq_ok he
    obtain ⟨children, hchildren, he⟩ := exists_of_bind_eq_ok he
    cases he
    cases h
    exact ⟨fuel, by omega, attrs, children, hattrs, hchildren, rfl⟩

theorem attributesVia_of_mapM {fuel : ℕ} {attrs attrs' : Attributes}
    (h : attrs.mapM (fun entry => do return (entry.1, ← entry.2.transform f fuel)) = .ok attrs') :
    AttributesVia (Node.Becomes f) attrs attrs' := by
  refine (forall₂_of_mapM h).imp fun entry entry' hentry => ?_
  obtain ⟨value, hvalue, hentry⟩ := exists_of_bind_eq_ok hentry
  cases hentry
  refine ⟨rfl, ?_⟩
  rcases fuel with _ | fuel
  · cases hvalue
  · rcases entry with ⟨name, _ | _ | _ | content | _ | _ | _⟩
    case element =>
      obtain ⟨content', hcontent, hvalue⟩ := exists_of_bind_eq_ok hvalue
      cases hvalue
      refine .of_node ⟨fuel + 1, ?_⟩
      rw [Node.transform, hcontent]
      rfl
    all_goals
      cases hvalue
      exact .of_flat rfl

/-- A walk that changes elements first goes on into what its change has put there. -/
theorem Node.Becomes.element {e : Element} {after : Node} (h : (Node.element e).Becomes f after) :
    ∃ e', after = .element e' ∧ (f e).Via (Node.Becomes f) e' := by
  obtain ⟨fuel, h⟩ := h
  obtain ⟨below, -, attrs, children, hattrs, hchildren, rfl⟩ := exists_of_transform_element h
  exact ⟨_, rfl, ⟨_, _, rfl⟩, attributesVia_of_mapM hattrs,
    (forall₂_of_mapM hchildren).imp fun _ _ hchild => ⟨below, hchild⟩⟩

end Passes

section Walks

variable {σ : Type} (v : Visitor (StateM σ))

theorem nodes_walked (nodes : List Node) (s : σ) :
    List.Forall₂ (Node.Walked v) nodes (nodesUpdateM v nodes s).1 := by
  induction nodes generalizing s with
  | nil => exact .nil
  | cons node rest ih => exact .cons ⟨s, rfl⟩ (ih _)

theorem attributes_walked (attrs : Attributes) (s : σ) :
    AttributesVia (Node.Walked v) attrs (attributesUpdateM v attrs s).1 := by
  induction attrs generalizing s with
  | nil => exact .nil
  | cons entry rest ih =>
    obtain ⟨name, value⟩ := entry
    refine .cons ⟨rfl, ?_⟩ (ih _)
    cases value with
    | element e => exact .of_node ⟨s, rfl⟩
    | _ => exact .of_flat rfl

/-- A walk that goes on with a state visits an element, then what hangs below it. -/
theorem Node.Walked.element {e : Element} {after : Node} (h : (Node.element e).Walked v after) :
    ∃ s e', after = .element e' ∧
      { (v.element e s).1 with attrs := e.attrs, children := e.children }.Via (Node.Walked v) e' := by
  obtain ⟨s, rfl⟩ := h
  cases e
  exact ⟨s, _, rfl, ⟨_, _, rfl⟩, attributes_walked v _ _, nodes_walked v _ _⟩

end Walks

section Styles

variable (f : Element → Element)

theorem nodesUpdateM_id (nodes : List Node) :
    nodesUpdateM (m := Id) (.ofElement fun e => pure (f e)) nodes
      = nodes.map (Node.mapElements f) := by
  induction nodes with
  | nil => rfl
  | cons node rest ih => exact congrArg (node.mapElements f :: ·) ih

theorem attributesUpdateM_id (attrs : Attributes) :
    AttributesVia (fun node node' => node.mapElements f = node') attrs
      (attributesUpdateM (m := Id) (.ofElement fun e => pure (f e)) attrs) := by
  induction attrs with
  | nil => exact .nil
  | cons entry rest ih =>
    obtain ⟨name, value⟩ := entry
    refine .cons ⟨rfl, ?_⟩ ih
    cases value with
    | element e => exact .of_node rfl
    | _ => exact .of_flat rfl

theorem Element.mapElements_via (e : Element) : ∃ e', (Node.element e).mapElements f = .element e' ∧
    { f e with attrs := e.attrs, children := e.children }.Via
      (fun node node' => node.mapElements f = node') e' := by
  cases e with
  | mk key elementType name semanticType dependency attrs events style referencedStyles abilities
      children selfClosing =>
    have hchildren : List.Forall₂ (fun node node' => node.mapElements f = node') children
        (nodesUpdateM (m := Id) (.ofElement fun e => pure (f e)) children) := by
      rw [nodesUpdateM_id]
      exact List.forall₂_map_right_iff.2 (List.forall₂_same.2 fun _ _ => rfl)
    exact ⟨_, rfl, ⟨_, _, rfl⟩, attributesUpdateM_id f attrs, hchildren⟩

end Styles

section Links

variable (o : Options)

theorem attributesVia_wrapLinks (attrs : Attributes) :
    AttributesVia (fun node node' => node.wrapLinks o = node') attrs
      (attributesWrapLinks o attrs) := by
  induction attrs with
  | nil => exact .nil
  | cons entry rest ih =>
    obtain ⟨name, value⟩ := entry
    refine .cons ⟨rfl, ?_⟩ ih
    cases value with
    | element e => exact .of_node rfl
    | _ => exact .of_flat rfl

theorem Element.wrapLinks_via {e : Element} (h : e.Unlinked) :
    e.Via (fun node node' => node.wrapLinks o = node') (e.wrapLinks o) := by
  rw [e.wrapLinks_of_unlinked o h]
  refine ⟨⟨_, _, rfl⟩, attributesVia_wrapLinks o _, ?_⟩
  dsimp only
  rw [nodesWrapLinks_eq_map]
  exact List.forall₂_map_right_iff.2 (List.forall₂_same.2 fun _ _ => rfl)

end Links

/-! ## Passes over trees -/

/-- A pass changes elements in some way before it goes through them, and leaves texts. -/
structure Goes (pass : Node → Node → Prop) (change : Element → Element → Prop) : Prop where
  constant : ∀ {value after}, pass (.constant value) after → after = .constant value
  raw : ∀ {text after}, pass (.raw text) after → after = .raw text
  element : ∀ {e after}, pass (.element e) after → ∃ own e', after = .element e' ∧ change e own ∧
    own.Via pass e'

theorem goes_mapElements (f : Element → Element) :
    Goes (fun node node' => node.mapElements f = node') fun e own =>
      own = { f e with attrs := e.attrs, children := e.children } where
  constant := by
    rintro value after rfl
    rfl
  raw := by
    rintro text after rfl
    rfl
  element := by
    rintro e after rfl
    obtain ⟨e', he', hvia⟩ := e.mapElements_via f
    exact ⟨_, e', he', rfl, hvia⟩

theorem goes_becomes (f : Element → Element) : Goes (Node.Becomes f) fun e own => own = f e where
  constant := by
    rintro value after ⟨_ | fuel, h⟩
    · cases h
    · cases h
      rfl
  raw := by
    rintro text after ⟨_ | fuel, h⟩
    · cases h
    · cases h
      rfl
  element h := by
    obtain ⟨e', rfl, hvia⟩ := h.element
    exact ⟨_, e', rfl, rfl, hvia⟩

theorem goes_walked {σ : Type} (v : Visitor (StateM σ)) : Goes (Node.Walked v) fun e own =>
    ∃ s, own = { (v.element e s).1 with attrs := e.attrs, children := e.children } where
  constant := by
    rintro value after ⟨s, rfl⟩
    rfl
  raw := by
    rintro text after ⟨s, rfl⟩
    rfl
  element h := by
    obtain ⟨s, e', rfl, hvia⟩ := h.element
    exact ⟨_, e', rfl, ⟨s, rfl⟩, hvia⟩

/-- A pass goes on into the trees that a tree other than an element is made of. -/
structure Enters (pass : Node → Node → Prop) : Prop where
  slot : ∀ {name node after}, pass (.slot ⟨name, some node⟩) after →
    ∃ node', after = .slot ⟨name, some node'⟩ ∧ pass node node'
  conditional : ∀ {q after}, pass (.conditional q) after →
    ∃ q', after = .conditional q' ∧ pass q.node q'.node
  repetition : ∀ {r after}, pass (.repetition r) after →
    ∃ r', after = .repetition r' ∧ pass r.node r'.node

theorem Carries.enters {pass : Node → Node → Prop} {keeps keeps' : Element → Prop}
    (h : Carries pass keeps keeps') : Enters pass :=
  ⟨h.slot, h.conditional, h.repetition⟩

theorem Enters.comp {pass pass' : Node → Node → Prop} (h : Enters pass) (h' : Enters pass') :
    Enters (Relation.Comp pass pass') where
  slot := by
    rintro name node after ⟨middle, hmiddle, hafter⟩
    obtain ⟨node', rfl, hnode⟩ := h.slot hmiddle
    obtain ⟨node'', rfl, hnode'⟩ := h'.slot hafter
    exact ⟨node'', rfl, node', hnode, hnode'⟩
  conditional := by
    rintro q after ⟨middle, hmiddle, hafter⟩
    obtain ⟨q', rfl, hq⟩ := h.conditional hmiddle
    obtain ⟨q'', rfl, hq'⟩ := h'.conditional hafter
    exact ⟨q'', rfl, q'.node, hq, hq'⟩
  repetition := by
    rintro r after ⟨middle, hmiddle, hafter⟩
    obtain ⟨r', rfl, hr⟩ := h.repetition hmiddle
    obtain ⟨r'', rfl, hr'⟩ := h'.repetition hafter
    exact ⟨r'', rfl, r'.node, hr, hr'⟩

end PageCompiler
