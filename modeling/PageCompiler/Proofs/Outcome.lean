import Mathlib
import PageCompiler.Diagnostic

/-!
# Outcomes

What follows from the outcome of a computation that can fail.
-/

namespace PageCompiler

variable {ε α β : Type}

/-- A computation that succeeds succeeds in its first part. -/
theorem exists_of_bind_eq_ok {x : Except ε α} {f : α → Except ε β} {b : β}
    (h : x >>= f = .ok b) : ∃ a, x = .ok a ∧ f a = .ok b := by
  cases x with
  | error _ => cases h
  | ok a => exact ⟨a, rfl, h⟩

theorem exists_of_map_eq_ok {x : Except ε α} {f : α → β} {b : β} (h : x.map f = .ok b) :
    ∃ a, x = .ok a ∧ f a = b := by
  cases x with
  | error _ => cases h
  | ok a => exact ⟨a, rfl, Except.ok.inj h⟩

/-- Two computations with the same outcome up to a function fail alike or both succeed. -/
theorem map_eq_map_cases {x y : Except ε α} {f : α → β} (h : x.map f = y.map f) :
    (∃ e, x = .error e ∧ y = .error e) ∨ ∃ a b, x = .ok a ∧ y = .ok b ∧ f a = f b := by
  cases x with
  | error e =>
    cases y with
    | error e' =>
      cases h
      exact Or.inl ⟨e, rfl, rfl⟩
    | ok b => cases h
  | ok a =>
    cases y with
    | error e => cases h
    | ok b => exact Or.inr ⟨a, b, rfl, rfl, Except.ok.inj h⟩

theorem exists_of_isOk {x : Except ε α} (h : x.isOk = true) : ∃ a, x = .ok a := by
  cases x with
  | error _ => cases h
  | ok a => exact ⟨a, rfl⟩

theorem exists_of_not_isOk {x : Except ε α} (h : x.isOk = false) : ∃ e, x = .error e := by
  cases x with
  | error e => exact ⟨e, rfl⟩
  | ok _ => cases h

/-- What is read off a result that there may be is read off a result. -/
theorem exists_of_toOption_map {x : Except ε α} {f : α → β} {b : β}
    (h : x.toOption.map f = some b) : ∃ a, x = .ok a ∧ f a = b := by
  cases x with
  | error _ => cases h
  | ok a => exact ⟨a, rfl, Option.some.inj h⟩

/-- The results of a row of computations, one for each entry. -/
theorem forall₂_of_mapM {f : α → Except ε β} {l : List α} {results : List β}
    (h : l.mapM f = .ok results) : List.Forall₂ (fun a b => f a = .ok b) l results := by
  induction l generalizing results with
  | nil =>
    cases h
    exact .nil
  | cons a rest ih =>
    rw [List.mapM_cons] at h
    obtain ⟨first, hfirst, h⟩ := exists_of_bind_eq_ok h
    obtain ⟨others, hothers, h⟩ := exists_of_bind_eq_ok h
    cases h
    exact .cons hfirst (ih hothers)

/-- A row of computations succeeds alike when each of its computations does. -/
theorem mapM_congr_ok {f g : α → Except ε β} (h : ∀ a b, f a = .ok b → g a = .ok b) {l : List α}
    {results : List β} (hl : l.mapM f = .ok results) : l.mapM g = .ok results := by
  induction l generalizing results with
  | nil => exact hl
  | cons a rest ih =>
    rw [List.mapM_cons] at hl ⊢
    obtain ⟨first, hfirst, hl⟩ := exists_of_bind_eq_ok hl
    obtain ⟨others, hothers, hl⟩ := exists_of_bind_eq_ok hl
    rw [h a first hfirst, ih hothers]
    exact hl

theorem exists_of_forall₂_right {R : α → β → Prop} {l : List α} {m : List β}
    (h : List.Forall₂ R l m) {b : β} (hb : b ∈ m) : ∃ a ∈ l, R a b := by
  induction h with
  | nil => cases hb
  | cons hab _ ih =>
    rcases List.mem_cons.1 hb with rfl | hb
    · exact ⟨_, List.mem_cons_self, hab⟩
    · obtain ⟨a, ha, hab⟩ := ih hb
      exact ⟨a, List.mem_cons_of_mem _ ha, hab⟩

theorem exists_of_forall₂_left {R : α → β → Prop} {l : List α} {m : List β}
    (h : List.Forall₂ R l m) {a : α} (ha : a ∈ l) : ∃ b ∈ m, R a b := by
  obtain ⟨b, hb, hab⟩ := exists_of_forall₂_right h.flip ha
  exact ⟨b, hb, hab⟩

/-- The results of a row of computations come from its entries. -/
theorem exists_of_mem_mapM {f : α → Except ε β} {l : List α} {results : List β}
    (h : l.mapM f = .ok results) {b : β} (hb : b ∈ results) : ∃ a ∈ l, f a = .ok b :=
  exists_of_forall₂_right (forall₂_of_mapM h) hb

/-! ## Failures -/

/-- The failures of a computation are of some sort. -/
def FailsWith (sort : Diagnostic → Prop) (x : Except Diagnostic α) : Prop :=
  ∀ d, x = .error d → sort d

namespace FailsWith

variable {sort : Diagnostic → Prop}

theorem ok (a : α) : FailsWith sort (.ok a) := fun _ h => by cases h

theorem error {d : Diagnostic} (h : sort d) : FailsWith sort (.error d : Except Diagnostic α) :=
  fun d' hd' => by
    cases hd'
    exact h

theorem mono {sort' : Diagnostic → Prop} {x : Except Diagnostic α} (hx : FailsWith sort x)
    (h : ∀ d, sort d → sort' d) : FailsWith sort' x := fun d hd => h d (hx d hd)

theorem bind {x : Except Diagnostic α} {f : α → Except Diagnostic β} (hx : FailsWith sort x)
    (hf : ∀ a, FailsWith sort (f a)) : FailsWith sort (x >>= f) := by
  cases x with
  | error d => exact fun d' h => hx d' (by cases h; rfl)
  | ok a => exact hf a

theorem map {x : Except Diagnostic α} (hx : FailsWith sort x) (f : α → β) :
    FailsWith sort (x.map f) := by
  cases x with
  | error d => exact fun d' h => hx d' (by cases h; rfl)
  | ok a => exact .ok _

theorem mapM {f : α → Except Diagnostic β} (hf : ∀ a, FailsWith sort (f a)) (l : List α) :
    FailsWith sort (l.mapM f) := by
  induction l with
  | nil => exact .ok _
  | cons a l ih =>
    rw [List.mapM_cons]
    exact (hf a).bind fun b => ih.bind fun bs => .ok (b :: bs)

end FailsWith

end PageCompiler
