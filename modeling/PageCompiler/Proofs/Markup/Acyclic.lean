import Mathlib
import PageCompiler.Markup.Canvas

/-!
# Elements that do not contain themselves

An element on a canvas is held by number, and one number can stand in several places. From a number
the markup unfolds to an end when all that is reached is on the canvas and nothing contains itself
(`Canvas.Acyclic`). This is so by the way the elements were made (`Canvas.Finite`): each after the
ones inside it. New elements and decorations do not change what stands below an element.

* `Canvas.finite_iff_acyclic`: both forms of it.
* `Canvas.Finite.markup_eq`: the markup of an element is that of its children inside its tag; it is
  not cut off at any depth.
* `Canvas.Unfolds`: what follows for an element.
* `Canvas.Retains`, `Canvas.Finite.retained`: what leaves it as it is.
-/

namespace PageCompiler

/-- The number of the element that a piece is. -/
def Piece.handle? : Piece → Option Nat
  | .element id => some id
  | _ => none

/-- The numbers of the elements directly inside an element. -/
def Tag.handles (t : Tag) : List Nat := t.children.filterMap Piece.handle?

theorem Tag.mem_handles {t : Tag} {id : Nat} : id ∈ t.handles ↔ .element id ∈ t.children := by
  rw [handles, List.mem_filterMap]
  constructor
  · rintro ⟨piece, hpiece, hid⟩
    cases piece <;> cases hid
    exact hpiece
  · exact fun h => ⟨_, h, rfl⟩

namespace Canvas

/-- An element has another one among its children. -/
def Contains (c : Canvas) (outer inner : Nat) : Prop :=
  ∃ t, c.tags[outer]? = some t ∧ inner ∈ t.handles

/-- From an element on, all that is reached is on the canvas, and nothing contains itself. -/
def Acyclic (c : Canvas) (id : Nat) : Prop :=
  ∀ inner, Relation.ReflTransGen c.Contains id inner →
    (∃ t, c.tags[inner]? = some t) ∧ ¬ Relation.TransGen c.Contains inner inner

/-- An element is on the canvas, and so are those inside it, all the way down. -/
inductive Finite (c : Canvas) : Nat → Prop
  | intro {id : Nat} {t : Tag} (found : c.tags[id]? = some t)
      (inside : ∀ inner ∈ t.handles, c.Finite inner) : c.Finite id

variable {c c' : Canvas} {id inner : Nat} {t : Tag}

theorem Finite.found (h : c.Finite id) : ∃ t, c.tags[id]? = some t := by
  cases h with
  | intro found _ => exact ⟨_, found⟩

theorem Finite.lt (h : c.Finite id) : id < c.tags.size := by
  obtain ⟨t, ht⟩ := h.found
  exact (Array.getElem?_eq_some_iff.1 ht).1

theorem Finite.inside (h : c.Finite id) (hinner : c.Contains id inner) : c.Finite inner := by
  cases h with
  | intro found inside =>
    obtain ⟨t, ht, hmem⟩ := hinner
    cases found.symm.trans ht
    exact inside inner hmem

theorem Finite.reached (h : c.Finite id) (hinner : Relation.ReflTransGen c.Contains id inner) :
    c.Finite inner := by
  induction hinner with
  | refl => exact h
  | tail _ hlast ih => exact ih.inside hlast

theorem Finite.not_self (h : c.Finite id) : ¬ Relation.TransGen c.Contains id id := by
  induction h with
  | @intro id t found _ ih =>
    intro hself
    obtain ⟨inner, ⟨t', ht', hmem⟩, hback⟩ := Relation.TransGen.head'_iff.1 hself
    cases found.symm.trans ht'
    exact ih inner hmem (.tail' hback ⟨t, found, hmem⟩)

/-! ## What is reached -/

section Reach

open Classical

/-- The elements on the canvas that are reached from one of them. -/
noncomputable def reach (c : Canvas) (id : Nat) : Finset Nat :=
  (Finset.range c.tags.size).filter (Relation.ReflTransGen c.Contains id)

theorem mem_reach : inner ∈ c.reach id ↔
    inner < c.tags.size ∧ Relation.ReflTransGen c.Contains id inner := by
  rw [reach, Finset.mem_filter, Finset.mem_range]

/-- Fewer elements are reached from inside an element that does not contain itself. -/
theorem card_reach_lt (hlt : id < c.tags.size) (hself : ¬ Relation.TransGen c.Contains id id)
    (h : c.Contains id inner) : (c.reach inner).card < (c.reach id).card := by
  refine Finset.card_lt_card ⟨fun x hx => ?_, fun hsub => ?_⟩
  · obtain ⟨hx, hreach⟩ := mem_reach.1 hx
    exact mem_reach.2 ⟨hx, .head h hreach⟩
  · obtain ⟨-, hback⟩ := mem_reach.1 (hsub (mem_reach.2 ⟨hlt, .refl⟩))
    exact hself (.head' h hback)

theorem card_reach_le (c : Canvas) (id : Nat) : (c.reach id).card ≤ c.tags.size := by
  have hcard := Finset.card_filter_le (Finset.range c.tags.size)
    (fun inner => Relation.ReflTransGen c.Contains id inner)
  rwa [Finset.card_range] at hcard

/-- **Both forms of acyclicity.** -/
theorem finite_iff_acyclic : c.Finite id ↔ c.Acyclic id := by
  refine ⟨fun h inner hinner => ⟨(h.reached hinner).found, (h.reached hinner).not_self⟩, fun h => ?_⟩
  induction hcard : (c.reach id).card using Nat.strong_induction_on generalizing id with
  | h n ih =>
    obtain ⟨⟨t, ht⟩, hself⟩ := h id .refl
    refine .intro ht fun inner hinner => ?_
    have hcontains : c.Contains id inner := ⟨t, ht, hinner⟩
    have hlt := card_reach_lt (Array.getElem?_eq_some_iff.1 ht).1 hself hcontains
    exact ih _ (hcard ▸ hlt) (fun x hx => h x (.head hcontains hx)) rfl

end Reach

/-! ## Markup -/

@[simp] theorem markup_text (c : Canvas) (s : String) : c.markup (.text s) = .text s := by
  rw [markup, markupTo]

@[simp] theorem markup_raw (c : Canvas) (s : String) : c.markup (.raw s) = .raw s := by
  rw [markup, markupTo]

@[simp] theorem markup_comment (c : Canvas) (s : String) : c.markup (.comment s) = .comment s := by
  rw [markup, markupTo]

/-- The markup of an element is the same at every depth that is not less than the number of elements
that are reached. -/
theorem Finite.markupTo_eq (h : c.Finite id) {n m : Nat} (hn : (c.reach id).card ≤ n)
    (hm : n ≤ m) : c.markupTo m (.element id) = c.markupTo n (.element id) := by
  induction h generalizing n m with
  | @intro id t found inside ih =>
    have hfinite : c.Finite id := .intro found inside
    have hpos : 0 < (c.reach id).card :=
      Finset.card_pos.2 ⟨id, mem_reach.2 ⟨hfinite.lt, .refl⟩⟩
    obtain ⟨n, rfl⟩ : ∃ k, n = k + 1 := ⟨n - 1, by omega⟩
    obtain ⟨m, rfl⟩ : ∃ k, m = k + 1 := ⟨m - 1, by omega⟩
    rw [markupTo, markupTo, found]
    refine congrArg (Markup.element t.name t.attrs) (List.map_congr_left fun piece hpiece => ?_)
    cases piece with
    | element inner =>
      have hmem := Tag.mem_handles.2 hpiece
      have hless := card_reach_lt hfinite.lt hfinite.not_self ⟨t, found, hmem⟩
      exact ih inner hmem (by omega) (by omega)
    | text _ | raw _ | comment _ => rw [markupTo, markupTo]

/-- **The markup of an element** is the markup of its children inside its tag. -/
theorem Finite.markup_eq (h : c.Finite id) (ht : c.tags[id]? = some t) :
    c.markup (.element id) = .element t.name t.attrs (t.children.map c.markup) := by
  have hlt := h.lt
  have hdeep := h.markupTo_eq (card_reach_le c id) (Nat.le_succ _)
  rw [markup, ← hdeep, markupTo, ht]
  rfl

/-- From an element on nothing contains itself, and every element that is reached has the markup of
its children inside its tag: the markup unfolds to an end, and none of it is cut off. -/
structure Unfolds (c : Canvas) (id : Nat) : Prop where
  acyclic : c.Acyclic id
  markup : ∀ inner t, Relation.ReflTransGen c.Contains id inner → c.tags[inner]? = some t →
    c.markup (.element inner) = .element t.name t.attrs (t.children.map c.markup)

theorem Finite.unfolds (h : c.Finite id) : c.Unfolds id where
  acyclic := finite_iff_acyclic.1 h
  markup _ _ hreached ht := (h.reached hreached).markup_eq ht

/-! ## Changes -/

/-- A canvas has the elements of another one, with the same elements inside them. -/
def Retains (c c' : Canvas) : Prop :=
  ∀ (id : Nat) (t : Tag), c.tags[id]? = some t → ∃ t', c'.tags[id]? = some t' ∧ t'.handles = t.handles

theorem Finite.retained (h : c.Finite id) (hretains : c.Retains c') : c'.Finite id := by
  induction h with
  | intro found _ ih =>
    obtain ⟨t', ht', hhandles⟩ := hretains _ _ found
    exact .intro ht' fun inner hinner => ih inner (hhandles ▸ hinner)

theorem getElem?_create (t' : Tag) (h : c.tags[id]? = some t) :
    (c.create t').2.tags[id]? = some t := by
  obtain ⟨hid, -⟩ := Array.getElem?_eq_some_iff.1 h
  rw [create, Array.getElem?_push_lt hid, ← h, Array.getElem?_eq_getElem hid]

namespace Retains

variable {c'' : Canvas}

theorem refl (c : Canvas) : c.Retains c := fun _ t h => ⟨t, h, rfl⟩

theorem trans (h : c.Retains c') (h' : c'.Retains c'') : c.Retains c'' := fun id t ht => by
  obtain ⟨t', ht', hhandles⟩ := h id t ht
  obtain ⟨t'', ht'', hhandles'⟩ := h' id t' ht'
  exact ⟨t'', ht'', hhandles'.trans hhandles⟩

theorem create (c : Canvas) (t : Tag) : c.Retains (c.create t).2 :=
  fun _ t' h => ⟨t', getElem?_create t h, rfl⟩

/-- An element can be decorated in place. -/
theorem modify (c : Canvas) (id : Nat) {f : Tag → Tag} (hf : ∀ t, (f t).handles = t.handles) :
    c.Retains (c.modify id f) := fun id' t h => by
  rw [Canvas.modify, Array.getElem?_modify, h]
  split
  · exact ⟨f t, rfl, hf t⟩
  · exact ⟨t, rfl, rfl⟩

theorem addClass (c : Canvas) (id : Nat) (name : String) : c.Retains (c.addClass id name) :=
  modify c id fun _ => rfl

theorem prepend_comment (c : Canvas) (id : Nat) (s : String) :
    c.Retains (c.prepend id (.comment s)) := modify c id fun _ => rfl

end Retains

/-- A new element is finite when those inside it are. -/
theorem Finite.create (h : ∀ inner ∈ t.handles, c.Finite inner) :
    (c.create t).2.Finite (c.create t).1 := by
  have ht : (c.create t).2.tags[(c.create t).1]? = some t := Array.getElem?_push_size
  exact .intro ht fun inner hinner => (h inner hinner).retained (.create c t)

end Canvas

end PageCompiler
