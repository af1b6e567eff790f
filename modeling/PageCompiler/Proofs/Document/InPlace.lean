import PageCompiler.Proofs.Document.DocumentOrder

/-!
# Walking in place

A walk in place hands each element that it meets to a visit, which may change it and answers a new
state, and goes on with the attributes and the children that the visit left. The elements are handed
over before anything below them is touched, so a visit sees them as they were in the tree.

When a visit changes keys, names and styles only, such a walk is what `updateM` computes, and it
hands over the elements that `elements` lists, in that order.

* `Node.WalksTo`: what a walk in place hands over, what it leaves, and its states.
* `Node.WalksTo.deterministic`: these are determined, whatever the visits do.
* `Node.walksTo_iff`: the walk in place is the walk of `updateM` over the list `elements`.
-/

namespace PageCompiler

section Walks

variable {σ : Type} (f : Element → StateM σ Element)

/-! ## The walk -/

mutual

/-- A walk in place over a node, from a state: the elements that it hands over, one after the other,
and the node and the state that it leaves. -/
inductive Node.WalksTo : Node → σ → List Element → Node → σ → Prop
  | leaf {node : Node} {s : σ} (hnode : ∀ e, node ≠ .element e) (hinner : node.inner? = none) :
    Node.WalksTo node s [] node s
  | slot {name : Option String} {node node' : Node} {s s' : σ} {seen : List Element}
    (h : Node.WalksTo node s seen node' s') :
    Node.WalksTo (.slot ⟨name, some node⟩) s seen (.slot ⟨name, some node'⟩) s'
  | conditional {node node' reference : Node} {value : Option Literal}
    {condition : Option ConditionGroup} {s s' : σ} {seen : List Element}
    (h : Node.WalksTo node s seen node' s') :
    Node.WalksTo (.conditional ⟨node, reference, value, condition⟩) s seen
      (.conditional ⟨node', reference, value, condition⟩) s'
  | repetition {node node' : Node} {source : Attribute} {names : RepetitionNames} {s s' : σ}
    {seen : List Element} (h : Node.WalksTo node s seen node' s') :
    Node.WalksTo (.repetition ⟨node, source, names⟩) s seen (.repetition ⟨node', source, names⟩) s'
  | element {e e' : Element} {s s' : σ} {seen : List Element}
    (h : Element.WalksTo e s seen e' s') : Node.WalksTo (.element e) s seen (.element e') s'

/-- An element is handed over; then come the attributes and the children that its visit left. -/
inductive Element.WalksTo : Element → σ → List Element → Element → σ → Prop
  | visit {e : Element} {s s₁ s₂ : σ} {seen more : List Element} {attrs : Attributes}
    {children : List Node} (hattrs : AttributesWalkTo (f e s).1.attrs (f e s).2 seen attrs s₁)
    (hchildren : NodesWalkTo (f e s).1.children s₁ more children s₂) :
    Element.WalksTo e s (e :: (seen ++ more)) { (f e s).1 with attrs, children } s₂

/-- Attributes are entered where they are elements. -/
inductive AttributesWalkTo : Attributes → σ → List Element → Attributes → σ → Prop
  | nil {s : σ} : AttributesWalkTo [] s [] [] s
  | element {name : String} {e e' : Element} {rest rest' : Attributes} {s s₁ s₂ : σ}
    {seen more : List Element} (h : Element.WalksTo e s seen e' s₁)
    (hrest : AttributesWalkTo rest s₁ more rest' s₂) :
    AttributesWalkTo ((name, .element e) :: rest) s (seen ++ more) ((name, .element e') :: rest') s₂
  | skip {name : String} {value : Attribute} {rest rest' : Attributes} {s s' : σ}
    {seen : List Element} (hvalue : ∀ e, value ≠ .element e)
    (hrest : AttributesWalkTo rest s seen rest' s') :
    AttributesWalkTo ((name, value) :: rest) s seen ((name, value) :: rest') s'

/-- Children are entered one after the other. -/
inductive NodesWalkTo : List Node → σ → List Element → List Node → σ → Prop
  | nil {s : σ} : NodesWalkTo [] s [] [] s
  | cons {node node' : Node} {rest rest' : List Node} {s s₁ s₂ : σ} {seen more : List Element}
    (h : Node.WalksTo node s seen node' s₁) (hrest : NodesWalkTo rest s₁ more rest' s₂) :
    NodesWalkTo (node :: rest) s (seen ++ more) (node' :: rest') s₂

end

variable {f}

/-! ## One walk only -/

-- By recursion on the first walk, because a visit may put a larger tree below an element. The
-- clause of the second walk is known from the node, the attribute or the list.
mutual

/-- **A walk in place is determined by the tree, the visits and the state.** -/
theorem Node.WalksTo.deterministic {node node' node₁ : Node} {s s' s₁ : σ}
    {seen seen₁ : List Element} : node.WalksTo f s seen node' s' → node.WalksTo f s seen₁ node₁ s₁ →
    seen = seen₁ ∧ node' = node₁ ∧ s' = s₁
  | .leaf hnode hinner, h' => by
    cases h' with
    | leaf => exact ⟨rfl, rfl, rfl⟩
    | slot | conditional | repetition => cases hinner
    | element => exact absurd rfl (hnode _)
  | .slot h, h' => by
    cases h' with
    | leaf _ hinner => cases hinner
    | slot h' =>
      obtain ⟨rfl, rfl, rfl⟩ := h.deterministic h'
      exact ⟨rfl, rfl, rfl⟩
  | .conditional h, h' => by
    cases h' with
    | leaf _ hinner => cases hinner
    | conditional h' =>
      obtain ⟨rfl, rfl, rfl⟩ := h.deterministic h'
      exact ⟨rfl, rfl, rfl⟩
  | .repetition h, h' => by
    cases h' with
    | leaf _ hinner => cases hinner
    | repetition h' =>
      obtain ⟨rfl, rfl, rfl⟩ := h.deterministic h'
      exact ⟨rfl, rfl, rfl⟩
  | .element h, h' => by
    cases h' with
    | leaf hnode => exact absurd rfl (hnode _)
    | element h' =>
      obtain ⟨rfl, rfl, rfl⟩ := h.deterministic h'
      exact ⟨rfl, rfl, rfl⟩

theorem Element.WalksTo.deterministic {e e' e₁ : Element} {s s' s₁ : σ}
    {seen seen₁ : List Element} : e.WalksTo f s seen e' s' → e.WalksTo f s seen₁ e₁ s₁ →
    seen = seen₁ ∧ e' = e₁ ∧ s' = s₁
  | .visit hattrs hchildren, .visit hattrs' hchildren' => by
    obtain ⟨rfl, rfl, rfl⟩ := hattrs.deterministic hattrs'
    obtain ⟨rfl, rfl, rfl⟩ := hchildren.deterministic hchildren'
    exact ⟨rfl, rfl, rfl⟩

theorem AttributesWalkTo.deterministic {attrs attrs' attrs₁ : Attributes} {s s' s₁ : σ}
    {seen seen₁ : List Element} : AttributesWalkTo f attrs s seen attrs' s' →
    AttributesWalkTo f attrs s seen₁ attrs₁ s₁ → seen = seen₁ ∧ attrs' = attrs₁ ∧ s' = s₁
  | .nil, .nil => ⟨rfl, rfl, rfl⟩
  | .element h hrest, .element h' hrest' => by
    obtain ⟨rfl, rfl, rfl⟩ := h.deterministic h'
    obtain ⟨rfl, rfl, rfl⟩ := hrest.deterministic hrest'
    exact ⟨rfl, rfl, rfl⟩
  | .element _ _, .skip hvalue _ => absurd rfl (hvalue _)
  | .skip hvalue _, .element _ _ => absurd rfl (hvalue _)
  | .skip _ hrest, .skip _ hrest' => by
    obtain ⟨rfl, rfl, rfl⟩ := hrest.deterministic hrest'
    exact ⟨rfl, rfl, rfl⟩

theorem NodesWalkTo.deterministic {nodes nodes' nodes₁ : List Node} {s s' s₁ : σ}
    {seen seen₁ : List Element} : NodesWalkTo f nodes s seen nodes' s' →
    NodesWalkTo f nodes s seen₁ nodes₁ s₁ → seen = seen₁ ∧ nodes' = nodes₁ ∧ s' = s₁
  | .nil, .nil => ⟨rfl, rfl, rfl⟩
  | .cons h hrest, .cons h' hrest' => by
    obtain ⟨rfl, rfl, rfl⟩ := h.deterministic h'
    obtain ⟨rfl, rfl, rfl⟩ := hrest.deterministic hrest'
    exact ⟨rfl, rfl, rfl⟩

end

/-! ## Visits that keep the shape -/

/-- Each visit changes the key, the name and the styles of an element at most. -/
def KeepsShape (f : Element → StateM σ Element) : Prop :=
  ∀ e s, ∃ key name style referencedStyles,
    (f e s).1 = { e with key, name, style, referencedStyles }

/-- After a visit that keeps the shape, the walk goes on with what the element had. -/
theorem KeepsShape.visit (hf : KeepsShape f) {e : Element} {s s₁ s₂ : σ}
    {seen more : List Element} {attrs : Attributes} {children : List Node}
    (hattrs : AttributesWalkTo f e.attrs (f e s).2 seen attrs s₁)
    (hchildren : NodesWalkTo f e.children s₁ more children s₂) :
    e.WalksTo f s (e :: (seen ++ more)) { (f e s).1 with attrs, children } s₂ := by
  obtain ⟨_, _, _, _, heq⟩ := hf e s
  have hattrs' : AttributesWalkTo f (f e s).1.attrs (f e s).2 seen attrs s₁ := by
    rw [heq]
    exact hattrs
  have hchildren' : NodesWalkTo f (f e s).1.children s₁ more children s₂ := by
    rw [heq]
    exact hchildren
  exact .visit hattrs' hchildren'

-- A visit that keeps the shape leaves the attributes and the children of the element, so here the
-- recursion is over the tree as it was before the walk.
mutual

/-- The walk of `updateM` is a walk in place over the list `elements`. -/
theorem Node.walksTo (hf : KeepsShape f) : (node : Node) → (s : σ) →
    node.WalksTo f s node.elements (node.updateM (.ofElement f) s).1
      (node.updateM (.ofElement f) s).2
  | .slot ⟨_, none⟩, _ => .leaf nofun rfl
  | .slot ⟨_, some node⟩, s => .slot (node.walksTo hf s)
  | .conditional ⟨node, _, _, _⟩, s => .conditional (node.walksTo hf s)
  | .repetition ⟨node, _, _⟩, s => .repetition (node.walksTo hf s)
  | .element e, s => .element (e.walksTo hf s)
  | .constant _, _ => .leaf nofun rfl
  | .dynamic _, _ => .leaf nofun rfl
  | .raw _, _ => .leaf nofun rfl
  | .inject _, _ => .leaf nofun rfl
  | .expr _, _ => .leaf nofun rfl

theorem Element.walksTo (hf : KeepsShape f) : (e : Element) → (s : σ) →
    e.WalksTo f s e.elements (e.updateM (.ofElement f) s).1 (e.updateM (.ofElement f) s).2
  | ⟨_, _, _, _, _, attrs, _, _, _, _, children, _⟩, _ =>
    hf.visit (attributes_walkTo hf attrs _) (nodes_walkTo hf children _)

theorem attributes_walkTo (hf : KeepsShape f) : (attrs : Attributes) → (s : σ) →
    AttributesWalkTo f attrs s (attributesElements attrs)
      (attributesUpdateM (.ofElement f) attrs s).1 (attributesUpdateM (.ofElement f) attrs s).2
  | [], _ => .nil
  | (_, .element e) :: rest, s => .element (e.walksTo hf s) (attributes_walkTo hf rest _)
  | (_, .constant _) :: rest, s => .skip nofun (attributes_walkTo hf rest s)
  | (_, .dynamic _) :: rest, s => .skip nofun (attributes_walkTo hf rest s)
  | (_, .raw _) :: rest, s => .skip nofun (attributes_walkTo hf rest s)
  | (_, .imported _) :: rest, s => .skip nofun (attributes_walkTo hf rest s)
  | (_, .expr _) :: rest, s => .skip nofun (attributes_walkTo hf rest s)
  | (_, .object _) :: rest, s => .skip nofun (attributes_walkTo hf rest s)

theorem nodes_walkTo (hf : KeepsShape f) : (nodes : List Node) → (s : σ) →
    NodesWalkTo f nodes s (nodesElements nodes) (nodesUpdateM (.ofElement f) nodes s).1
      (nodesUpdateM (.ofElement f) nodes s).2
  | [], _ => .nil
  | node :: rest, s => .cons (node.walksTo hf s) (nodes_walkTo hf rest _)

end

/-- **The walks agree.** With visits that change keys, names and styles only, a walk in place hands
over the elements that `elements` lists, each once and in that order, and leaves what `updateM`
leaves. -/
theorem Node.walksTo_iff (hf : KeepsShape f) {node node' : Node} {s s' : σ} {seen : List Element} :
    node.WalksTo f s seen node' s' ↔
      seen = node.elements ∧ node.updateM (.ofElement f) s = (node', s') := by
  constructor
  · intro h
    obtain ⟨rfl, rfl, rfl⟩ := h.deterministic (node.walksTo hf s)
    exact ⟨rfl, rfl⟩
  · rintro ⟨rfl, hupdate⟩
    have h := node.walksTo hf s
    rwa [hupdate] at h

end Walks

end PageCompiler
