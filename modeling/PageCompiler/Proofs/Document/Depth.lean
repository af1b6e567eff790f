import PageCompiler.Document.Transform
import PageCompiler.Proofs.Outcome

/-!
# The depth of a walk

A walk that changes elements first is given a depth that it must not go beyond. Here is how much of
it a walk needs.

* `DoneBy`: a computation comes to a result within a depth.
* `DoneBy.element`, `DoneBy.attributes_cons`, `DoneBy.nodes_cons`: the depth for an element, its
  attributes and its children.
* `ComesTo`: a computation comes to a result within some depth.
-/

namespace PageCompiler

/-- A computation comes to a result when it is given a depth, and whenever it is given more. -/
def DoneBy {α : Type} (run : ℕ → Except Diagnostic α) (depth : ℕ) (result : α) : Prop :=
  ∀ fuel ≥ depth, run fuel = .ok result

namespace DoneBy

variable {α β : Type} {run : ℕ → Except Diagnostic α} {a : α} {b : β} {depth depth' : ℕ}

theorem ok : DoneBy (fun _ => .ok a) depth a := fun _ _ => rfl

theorem mono (h : DoneBy run depth a) (hle : depth ≤ depth') : DoneBy run depth' a :=
  fun fuel hfuel => h fuel (hle.trans hfuel)

/-- A computation that goes one step down. -/
theorem down (h : DoneBy (fun fuel => run (fuel + 1)) depth a) : DoneBy run (depth + 1) a := by
  intro fuel hfuel
  obtain ⟨below, rfl⟩ := Nat.exists_eq_add_of_le' (Nat.le_of_add_left_le hfuel)
  exact h below (Nat.le_of_add_le_add_right hfuel)

theorem bind {next : ℕ → α → Except Diagnostic β} (h : DoneBy run depth a)
    (hnext : DoneBy (fun fuel => next fuel a) depth b) :
    DoneBy (fun fuel => run fuel >>= next fuel) depth b := by
  intro fuel hfuel
  dsimp only
  rw [h fuel hfuel]
  exact hnext fuel hfuel

section Walk

variable {f : Element → Element}

theorem attributes_cons {name : String} {value value' : Attribute} {attrs attrs' : Attributes}
    (h : DoneBy (fun fuel => value.transform f fuel) depth value')
    (hattrs : DoneBy (fun fuel => attrs.mapM fun entry => do
      return (entry.1, ← entry.2.transform f fuel)) depth attrs') :
    DoneBy (fun fuel => ((name, value) :: attrs).mapM fun entry => do
      return (entry.1, ← entry.2.transform f fuel)) depth ((name, value') :: attrs') := by
  simp only [List.mapM_cons]
  have hentry : DoneBy (fun fuel => do
      return (name, ← value.transform f fuel) : ℕ → Except Diagnostic (String × Attribute)) depth
      (name, value') := h.bind .ok
  exact hentry.bind (hattrs.bind .ok)

theorem nodes_cons {node node' : Node} {nodes nodes' : List Node}
    (h : DoneBy (fun fuel => node.transform f fuel) depth node')
    (hnodes : DoneBy (fun fuel => nodes.mapM (Node.transform f fuel)) depth nodes') :
    DoneBy (fun fuel => (node :: nodes).mapM (Node.transform f fuel)) depth (node' :: nodes') := by
  simp only [List.mapM_cons]
  exact h.bind (hnodes.bind .ok)

theorem element {e : Element} {attrs : Attributes} {children : List Node}
    (hattrs : DoneBy (fun fuel => (f e).attrs.mapM fun entry => do
      return (entry.1, ← entry.2.transform f fuel)) depth attrs)
    (hchildren : DoneBy (fun fuel => (f e).children.mapM (Node.transform f fuel)) depth children) :
    DoneBy (fun fuel => e.transform f fuel) (depth + 1) { f e with attrs, children } :=
  .down (hattrs.bind (hchildren.bind .ok))

end Walk

end DoneBy

/-! ## Depth enough -/

/-- A computation comes to a result when it is given depth enough. -/
def ComesTo {α : Type} (run : ℕ → Except Diagnostic α) (result : α) : Prop :=
  ∃ depth, DoneBy run depth result

namespace ComesTo

variable {α β : Type} {run : ℕ → Except Diagnostic α} {run' : ℕ → Except Diagnostic β} {a : α}
  {b : β}

theorem ok : ComesTo (fun _ => .ok a) a := ⟨0, .ok⟩

theorem down (h : ComesTo (fun fuel => run (fuel + 1)) a) : ComesTo run a := by
  obtain ⟨depth, h⟩ := h
  exact ⟨depth + 1, h.down⟩

theorem map (h : ComesTo run a) (g : α → β) :
    ComesTo (fun fuel => do return g (← run fuel)) (g a) := by
  obtain ⟨depth, h⟩ := h
  exact ⟨depth, h.bind .ok⟩

/-- One depth is enough for two computations. -/
theorem both (h : ComesTo run a) (h' : ComesTo run' b) :
    ∃ depth, DoneBy run depth a ∧ DoneBy run' depth b := by
  obtain ⟨m, h⟩ := h
  obtain ⟨n, h'⟩ := h'
  exact ⟨max m n, h.mono (le_max_left m n), h'.mono (le_max_right m n)⟩

section Walk

variable {f : Element → Element}

theorem attributes_cons {name : String} {value value' : Attribute} {attrs attrs' : Attributes}
    (h : ComesTo (fun fuel => value.transform f fuel) value')
    (hattrs : ComesTo (fun fuel => attrs.mapM fun entry => do
      return (entry.1, ← entry.2.transform f fuel)) attrs') :
    ComesTo (fun fuel => ((name, value) :: attrs).mapM fun entry => do
      return (entry.1, ← entry.2.transform f fuel)) ((name, value') :: attrs') := by
  obtain ⟨depth, h, hattrs⟩ := h.both hattrs
  exact ⟨depth, h.attributes_cons hattrs⟩

theorem nodes_cons {node node' : Node} {nodes nodes' : List Node}
    (h : ComesTo (fun fuel => node.transform f fuel) node')
    (hnodes : ComesTo (fun fuel => nodes.mapM (Node.transform f fuel)) nodes') :
    ComesTo (fun fuel => (node :: nodes).mapM (Node.transform f fuel)) (node' :: nodes') := by
  obtain ⟨depth, h, hnodes⟩ := h.both hnodes
  exact ⟨depth, h.nodes_cons hnodes⟩

theorem element {e : Element} {attrs : Attributes} {children : List Node}
    (hattrs : ComesTo (fun fuel => (f e).attrs.mapM fun entry => do
      return (entry.1, ← entry.2.transform f fuel)) attrs)
    (hchildren : ComesTo (fun fuel => (f e).children.mapM (Node.transform f fuel)) children) :
    ComesTo (fun fuel => e.transform f fuel) { f e with attrs, children } := by
  obtain ⟨depth, hattrs, hchildren⟩ := hattrs.both hchildren
  exact ⟨depth + 1, .element hattrs hchildren⟩

end Walk

end ComesTo

end PageCompiler
