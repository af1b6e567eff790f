import Mathlib
import PageCompiler.Document.Walk

/-!
# What a walk does to the elements

A walk meets the elements of a tree in the order in which `elements` lists them, and what it does to
one of them it does to that one alone.

* `Returns`: all results of a computation have a property, in any monad.
* `Node.returns`, `Component.returns`: the elements of a changed tree stem, one by one, from those of
  the tree.
* `Node.updateM_fixed`: a walk that changes nothing.
-/

namespace PageCompiler

/-! ## Results of a computation -/

section Returns

variable {m : Type → Type} [Monad m] {α β : Type}

/-- All results of a computation have a property. -/
def Returns (P : α → Prop) (x : m α) : Prop := ∃ y : m { a // P a }, Subtype.val <$> y = x

variable {P : α → Prop} {Q : β → Prop}

theorem Returns.pure [LawfulMonad m] {a : α} (h : P a) : Returns P (pure a : m α) :=
  ⟨Pure.pure ⟨a, h⟩, map_pure _ _⟩

theorem Returns.bind [LawfulMonad m] {x : m α} {g : α → m β} (hx : Returns P x)
    (hg : ∀ a, P a → Returns Q (g a)) : Returns Q (x >>= g) := by
  obtain ⟨y, rfl⟩ := hx
  choose z hz using hg
  refine ⟨y >>= fun a => z a a.2, ?_⟩
  rw [map_bind, bind_map_left]
  exact bind_congr fun a => hz a a.2

theorem Returns.any [LawfulMonad m] (x : m α) : Returns (fun _ => True) x :=
  ⟨(fun a => ⟨a, trivial⟩) <$> x, by simp⟩

theorem Returns.of_state {σ : Type} {x : StateM σ α} (h : ∀ s, P (x s).1) : Returns P x :=
  ⟨fun s => (⟨(x s).1, h s⟩, (x s).2), rfl⟩

theorem Returns.state {σ : Type} {x : StateM σ α} (h : Returns P x) (s : σ) : P (x s).1 := by
  obtain ⟨y, rfl⟩ := h
  exact (y s).1.2

theorem Returns.of_id {a : α} (h : P a) : Returns (m := Id) P (a : Id α) := ⟨⟨a, h⟩, rfl⟩

theorem Returns.id {a : α} (h : Returns (m := Id) P (a : Id α)) : P a := by
  obtain ⟨y, rfl⟩ := h
  exact y.2

end Returns

/-! ## Elements of a changed tree -/

section Elements

variable {m : Type → Type} [Monad m] {v : Visitor m} {R : Element → Element → Prop}

/-- What a visitor makes of an element is related to it, whatever hangs below it. -/
def Visitor.Relates (v : Visitor m) (R : Element → Element → Prop) : Prop :=
  ∀ e, Returns (fun e' => ∀ attrs children, R e { e' with attrs, children }) (v.element e)

variable [LawfulMonad m]

mutual

/-- **Elements stem from elements.** The elements of a changed tree are those that the visitor makes
of the elements of the tree, in the same order. -/
theorem Node.returns (hv : v.Relates R) : (node : Node) →
    Returns (fun node' => List.Forall₂ R node.elements node'.elements) (node.updateM v)
  | .slot content => (content.returns hv).bind fun _ h => .pure h
  | .element content => (content.returns hv).bind fun _ h => .pure h
  | .conditional content => (content.returns hv).bind fun _ h => .pure h
  | .repetition content => (content.returns hv).bind fun _ h => .pure h
  | .constant _ => .pure .nil
  | .dynamic _ => .pure .nil
  | .raw _ => .pure .nil
  | .inject _ => .pure .nil
  | .expr _ => .pure .nil

theorem Slot.returns (hv : v.Relates R) : (slot : Slot) →
    Returns (fun slot' => List.Forall₂ R slot.elements slot'.elements) (slot.updateM v)
  | ⟨_, none⟩ => .pure .nil
  | ⟨_, some node⟩ => (node.returns hv).bind fun _ h => .pure h

theorem Conditional.returns (hv : v.Relates R) : (q : Conditional) →
    Returns (fun q' => List.Forall₂ R q.elements q'.elements) (q.updateM v)
  | ⟨node, _, _, _⟩ => (node.returns hv).bind fun _ h => .pure h

theorem Repetition.returns (hv : v.Relates R) : (r : Repetition) →
    Returns (fun r' => List.Forall₂ R r.elements r'.elements) (r.updateM v)
  | ⟨node, _, _⟩ => (Returns.any _).bind fun _ _ => (node.returns hv).bind fun _ h => .pure h

theorem Element.returns (hv : v.Relates R) : (e : Element) →
    Returns (fun e' => List.Forall₂ R e.elements e'.elements) (e.updateM v)
  | ⟨key, elementType, name, semanticType, dependency, attrs, events, style, referencedStyles,
      abilities, children, selfClosing⟩ => by
    refine (hv _).bind fun e he => (attributesReturns hv attrs).bind fun attrs' hattrs =>
      (nodesReturns hv children).bind fun children' hchildren => .pure ?_
    exact .cons (he attrs' children') (List.rel_append hattrs hchildren)

theorem nodesReturns (hv : v.Relates R) : (nodes : List Node) →
    Returns (fun nodes' => List.Forall₂ R (nodesElements nodes) (nodesElements nodes'))
      (nodesUpdateM v nodes)
  | [] => .pure .nil
  | node :: rest => (node.returns hv).bind fun _ h => (nodesReturns hv rest).bind fun _ hrest =>
    .pure (List.rel_append h hrest)

theorem attributesReturns (hv : v.Relates R) : (attrs : List (String × Attribute)) →
    Returns (fun attrs' => List.Forall₂ R (attributesElements attrs) (attributesElements attrs'))
      (attributesUpdateM v attrs)
  | [] => .pure .nil
  | (_, value) :: rest =>
    (value.returns hv).bind fun _ h => (attributesReturns hv rest).bind fun _ hrest =>
    .pure (List.rel_append h hrest)

theorem Attribute.returns (hv : v.Relates R) : (value : Attribute) →
    Returns (fun value' => List.Forall₂ R value.elements value'.elements) (value.updateM v)
  | .element content => (content.returns hv).bind fun _ h => .pure h
  | .constant _ => .pure .nil
  | .dynamic _ => .pure .nil
  | .raw _ => .pure .nil
  | .imported _ => .pure .nil
  | .expr _ => .pure .nil
  | .object _ => .pure .nil

end

theorem defaultsReturns (hv : v.Relates R) : (props : Dict PropDefinition) →
    Returns (fun props' => List.Forall₂ R ((defaultNodes props).flatMap Node.elements)
        ((defaultNodes props').flatMap Node.elements))
      (props.mapM fun entry => do return (entry.1, ← entry.2.updateM (Node.updateM v)))
  | [] => .pure .nil
  | (_, ⟨_, none, _⟩) :: rest | (_, ⟨_, some (.value _), _⟩) :: rest => by
    rw [List.mapM_cons, PropDefinition.updateM, pure_bind, pure_bind]
    exact (defaultsReturns hv rest).bind fun _ h => .pure h
  | (_, ⟨_, some (.node node), _⟩) :: rest => by
    rw [List.mapM_cons, PropDefinition.updateM, bind_assoc, bind_assoc]
    refine (node.returns hv).bind fun _ h => ?_
    rw [pure_bind, pure_bind]
    exact (defaultsReturns hv rest).bind fun _ hrest => .pure (List.rel_append h hrest)

/-- The elements of a changed component stem from its elements. -/
theorem Component.returns (hv : v.Relates R) (c : Component) :
    Returns (fun c' => List.Forall₂ R c.elements c'.elements) (c.updateM v) :=
  (c.node.returns hv).bind fun _ h => (defaultsReturns hv c.props).bind fun _ hprops =>
    .pure (List.rel_append h hprops)

end Elements

/-! ## Walks that change nothing -/

section Fixed

variable {m : Type → Type} [Monad m] [LawfulMonad m] {v : Visitor m}

mutual

/-- A walk leaves a tree as it is when its visitor leaves each element and each name. -/
theorem Node.updateM_fixed (hnames : ∀ r, v.names r = pure r.names) : (node : Node) →
    (∀ e ∈ node.elements, v.element e = pure e) → node.updateM v = pure node
  | .slot content, h => by rw [Node.updateM, content.updateM_fixed hnames h, pure_bind]
  | .element content, h => by rw [Node.updateM, content.updateM_fixed hnames h, pure_bind]
  | .conditional content, h => by rw [Node.updateM, content.updateM_fixed hnames h, pure_bind]
  | .repetition content, h => by rw [Node.updateM, content.updateM_fixed hnames h, pure_bind]
  | .constant _, _ => rfl
  | .dynamic _, _ => rfl
  | .raw _, _ => rfl
  | .inject _, _ => rfl
  | .expr _, _ => rfl

theorem Slot.updateM_fixed (hnames : ∀ r, v.names r = pure r.names) : (slot : Slot) →
    (∀ e ∈ slot.elements, v.element e = pure e) → slot.updateM v = pure slot
  | ⟨_, none⟩, _ => rfl
  | ⟨_, some node⟩, h => by rw [Slot.updateM, node.updateM_fixed hnames h, pure_bind]

theorem Conditional.updateM_fixed (hnames : ∀ r, v.names r = pure r.names) : (q : Conditional) →
    (∀ e ∈ q.elements, v.element e = pure e) → q.updateM v = pure q
  | ⟨node, _, _, _⟩, h => by rw [Conditional.updateM, node.updateM_fixed hnames h, pure_bind]

theorem Repetition.updateM_fixed (hnames : ∀ r, v.names r = pure r.names) : (r : Repetition) →
    (∀ e ∈ r.elements, v.element e = pure e) → r.updateM v = pure r
  | ⟨node, _, _⟩, h => by
    rw [Repetition.updateM, hnames, pure_bind, node.updateM_fixed hnames h, pure_bind]

theorem Element.updateM_fixed (hnames : ∀ r, v.names r = pure r.names) : (e : Element) →
    (∀ x ∈ e.elements, v.element x = pure x) → e.updateM v = pure e
  | ⟨_, _, _, _, _, attrs, _, _, _, _, children, _⟩, h => by
    rw [Element.elements, List.forall_mem_cons, List.forall_mem_append] at h
    rw [Element.updateM, h.1, pure_bind, attributesUpdateM_fixed hnames attrs h.2.1, pure_bind,
      nodesUpdateM_fixed hnames children h.2.2, pure_bind]

theorem nodesUpdateM_fixed (hnames : ∀ r, v.names r = pure r.names) : (nodes : List Node) →
    (∀ e ∈ nodesElements nodes, v.element e = pure e) → nodesUpdateM v nodes = pure nodes
  | [], _ => rfl
  | node :: rest, h => by
    rw [nodesElements, List.forall_mem_append] at h
    rw [nodesUpdateM, node.updateM_fixed hnames h.1, pure_bind,
      nodesUpdateM_fixed hnames rest h.2, pure_bind]

theorem attributesUpdateM_fixed (hnames : ∀ r, v.names r = pure r.names) :
    (attrs : List (String × Attribute)) →
    (∀ e ∈ attributesElements attrs, v.element e = pure e) → attributesUpdateM v attrs = pure attrs
  | [], _ => rfl
  | (_, value) :: rest, h => by
    rw [attributesElements, List.forall_mem_append] at h
    rw [attributesUpdateM, value.updateM_fixed hnames h.1, pure_bind,
      attributesUpdateM_fixed hnames rest h.2, pure_bind]

theorem Attribute.updateM_fixed (hnames : ∀ r, v.names r = pure r.names) : (value : Attribute) →
    (∀ e ∈ value.elements, v.element e = pure e) → value.updateM v = pure value
  | .element content, h => by rw [Attribute.updateM, content.updateM_fixed hnames h, pure_bind]
  | .constant _, _ => rfl
  | .dynamic _, _ => rfl
  | .raw _, _ => rfl
  | .imported _, _ => rfl
  | .expr _, _ => rfl
  | .object _, _ => rfl

end

end Fixed

end PageCompiler
