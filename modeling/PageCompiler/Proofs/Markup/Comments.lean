import PageCompiler.Html.Token
import PageCompiler.Proofs.Markup.Classes
import PageCompiler.Proofs.Markup.Printing

/-!
# Comments

A comment is printed as it stands between the two marks, and whoever reads it takes it to be over at
the first end inside. There are four ways to end a comment too early (`Html.Scanner.EndsEarly`), and
a text with none of them is read as the comment that it was printed for.

* `Html.Scanner.markup_comment_iff`: the comments that are read as they were printed.
* `Canvas.HasComment`: the comments on a canvas; `Canvas.Notes`: what is added to them.
* `Canvas.hasComment_of_markup`: the comments in the markup of a piece are on the canvas.
-/

namespace PageCompiler

/-! ## Parts of a text -/

section Parts

variable {α : Type} {pattern a b : List α} {x : α}

/-- What a text begins with, up to a character that a pattern does not have. -/
theorem prefix_append_cons_iff (h : x ∉ pattern) :
    pattern <+: a ++ x :: b ↔ pattern <+: a := by
  refine ⟨fun hwhole => ?_, fun hpart => hpart.trans (List.prefix_append ..)⟩
  rcases List.prefix_or_prefix_of_prefix hwhole (List.prefix_append a (x :: b)) with
    hshort | ⟨rest, rfl⟩
  · exact hshort
  rcases rest with _ | ⟨y, rest⟩
  · rw [List.append_nil]
  · obtain ⟨rfl, -⟩ := List.cons_prefix_cons.1 ((List.prefix_append_right_inj a).1 hwhole)
    exact absurd (List.mem_append_right _ List.mem_cons_self) h

/-- The parts of a text on both sides of a character that a pattern does not have. -/
theorem infix_append_cons_iff (h : x ∉ pattern) :
    pattern <:+: a ++ x :: b ↔ pattern <:+: a ∨ pattern <:+: b := by
  induction a with
  | nil =>
    rw [List.nil_append, List.infix_cons_iff, ← List.nil_append (x :: b),
      prefix_append_cons_iff h, List.prefix_nil, List.infix_nil]
  | cons y a ih =>
    rw [List.cons_append, List.infix_cons_iff, ← List.cons_append, prefix_append_cons_iff h, ih,
      List.infix_cons_iff, or_assoc]

end Parts

namespace Html.Scanner

/-! ## Where a comment ends -/

/-- An end of a comment stands in a text. -/
def HoldsEnd (s : List Char) : Prop := ['-', '-', '>'] <:+: s ∨ ['-', '-', '!', '>'] <:+: s

/-- A comment with such a text is read as if it ended inside the text. -/
def EndsEarly (s : List Char) : Prop := ['>'] <+: s ∨ ['-', '>'] <+: s ∨ HoldsEnd s

variable {s s' r : List Char} {c : Char}

theorem holdsEnd_cons_iff : HoldsEnd (c :: s) ↔
    ['-', '-', '>'] <+: c :: s ∨ ['-', '-', '!', '>'] <+: c :: s ∨ HoldsEnd s := by
  rw [HoldsEnd, HoldsEnd, List.infix_cons_iff, List.infix_cons_iff]
  tauto

theorem holdsEnd_append_iff : HoldsEnd (s ++ ' ' :: s') ↔ HoldsEnd s ∨ HoldsEnd s' := by
  rw [HoldsEnd, infix_append_cons_iff (by decide), infix_append_cons_iff (by decide), HoldsEnd,
    HoldsEnd]
  tauto

theorem endsEarly_append_iff : EndsEarly (s ++ ' ' :: s') ↔ EndsEarly s ∨ HoldsEnd s' := by
  rw [EndsEarly, prefix_append_cons_iff (by decide), prefix_append_cons_iff (by decide),
    holdsEnd_append_iff, EndsEarly]
  tauto

/-- Where no comment ends, the reader goes on to the next character. -/
theorem afterComment_cons (hend : ¬ ['-', '-', '>'] <+: c :: s)
    (hbang : ¬ ['-', '-', '!', '>'] <+: c :: s) : afterComment (c :: s) = afterComment s := by
  rw [afterComment]
  · rintro rest rfl rfl
    exact hend ⟨rest, rfl⟩
  · rintro rest rfl rfl
    exact hbang ⟨rest, rfl⟩

/-- An end that begins inside a text and goes beyond it is not one: the text is closed by one. -/
theorem prefix_of_closed {pattern : List Char}
    (hpattern : pattern = ['-', '-', '>'] ∨ pattern = ['-', '-', '!', '>']) (hs : s ≠ [])
    (h : pattern <+: s ++ '-' :: '-' :: '>' :: r) : pattern <+: s := by
  match s with
  | [] => exact absurd rfl hs
  | [_] | [_, _] => rcases hpattern with rfl | rfl <;> simp at h
  | [_, _, _] =>
    rcases hpattern with rfl | rfl
    · simpa using h
    · simp at h
  | _ :: _ :: _ :: _ :: _ => rcases hpattern with rfl | rfl <;> simpa using h

/-- What is read after an early end is more than what stands behind the comment. -/
theorem append_closed_ne (s r : List Char) : s ++ '-' :: '-' :: '>' :: r ≠ r := fun heq => by
  have hlength := congrArg List.length heq
  simp at hlength
  omega

/-- A comment is over where it was closed, unless an end stands in its text. -/
theorem afterComment_eq_iff (s r : List Char) :
    afterComment (s ++ '-' :: '-' :: '>' :: r) = r ↔ ¬ HoldsEnd s := by
  induction s with
  | nil => simp [afterComment, HoldsEnd]
  | cons c s ih =>
    rw [holdsEnd_cons_iff]
    by_cases hend : ['-', '-', '>'] <+: c :: s
    · refine iff_of_false ?_ fun hnone => hnone (Or.inl hend)
      obtain ⟨behind, hbehind⟩ := hend
      rw [← hbehind]
      exact append_closed_ne behind r
    by_cases hbang : ['-', '-', '!', '>'] <+: c :: s
    · refine iff_of_false ?_ fun hnone => hnone (Or.inr (Or.inl hbang))
      obtain ⟨behind, hbehind⟩ := hbang
      rw [← hbehind]
      exact append_closed_ne behind r
    have hnext : afterComment (c :: s ++ '-' :: '-' :: '>' :: r)
        = afterComment (s ++ '-' :: '-' :: '>' :: r) :=
      afterComment_cons (mt (prefix_of_closed (.inl rfl) (List.cons_ne_nil c s)) hend)
        (mt (prefix_of_closed (.inr rfl) (List.cons_ne_nil c s)) hbang)
    rw [hnext, ih]
    simp [hend, hbang]

/-- A comment that is not over at once is read up to an end. -/
theorem declaration_comment (foreign : Bool) (hmark : ¬ ['>'] <+: s) (hdash : ¬ ['-', '>'] <+: s) :
    declaration foreign ('-' :: '-' :: (s ++ '-' :: '-' :: '>' :: r))
      = ([.comment], afterComment (s ++ '-' :: '-' :: '>' :: r)) := by
  rw [declaration]
  · intro rest heq
    match s with
    | [] => simp at heq
    | _ :: _ => simp_all
  · intro rest heq
    match s with
    | [] | [_] => simp at heq
    | _ :: _ :: _ => simp_all

/-- **A printed comment is read as it was written,** whatever stands behind it, exactly if none of
the four ways to end it early is in its text. -/
theorem markup_comment_iff (foreign : Bool) (s : String) (r : List Char) :
    markup foreign ((Markup.comment s).print.toList ++ r) = ([.comment], r) ↔
      ¬ EndsEarly s.toList := by
  have hread : markup foreign ((Markup.comment s).print.toList ++ r)
      = declaration foreign ('-' :: '-' :: (s.toList ++ '-' :: '-' :: '>' :: r)) := by
    rw [Markup.toList_print_comment]
    simp [markup]
  rw [hread]
  by_cases hmark : ['>'] <+: s.toList
  · refine iff_of_false (fun h => ?_) fun hnone => hnone (Or.inl hmark)
    obtain ⟨behind, hbehind⟩ := hmark
    rw [← hbehind] at h
    exact append_closed_ne behind r (Prod.mk.inj h).2
  by_cases hdash : ['-', '>'] <+: s.toList
  · refine iff_of_false (fun h => ?_) fun hnone => hnone (Or.inr (Or.inl hdash))
    obtain ⟨behind, hbehind⟩ := hdash
    rw [← hbehind] at h
    exact append_closed_ne behind r (Prod.mk.inj h).2
  rw [declaration_comment foreign hmark hdash, Prod.mk.injEq, afterComment_eq_iff, EndsEarly]
  simp [hmark, hdash]

end Html.Scanner

/-! ## Comments in markup -/

namespace Markup

mutual

/-- The texts of the comments in markup. -/
def comments : Markup → List String
  | .element _ _ children => allComments children
  | .comment s => [s]
  | .text _ | .raw _ => []

/-- The texts of the comments in several pieces of markup. -/
def allComments : List Markup → List String
  | [] => []
  | piece :: rest => comments piece ++ allComments rest

end

theorem mem_allComments {pieces : List Markup} {s : String} :
    s ∈ allComments pieces ↔ ∃ piece ∈ pieces, s ∈ comments piece := by
  induction pieces with
  | nil => simp [allComments]
  | cons piece rest ih => simp [allComments, ih]

end Markup

namespace Canvas

/-- A comment stands in an element on a canvas. -/
def HasComment (c : Canvas) (s : String) : Prop :=
  ∃ (id : Nat) (t : Tag), c.tags[id]? = some t ∧ .comment s ∈ t.children

variable {c c' c'' : Canvas} {s s' : String}

/-- The comments in the markup of a piece are on the canvas, unless the piece is one. -/
theorem hasComment_of_markup {piece : Piece} (h : s ∈ (c.markup piece).comments) :
    c.HasComment s ∨ piece = .comment s := by
  suffices hdepth : ∀ fuel piece, s ∈ (c.markupTo fuel piece).comments →
      c.HasComment s ∨ piece = .comment s from hdepth _ piece h
  intro fuel
  induction fuel with
  | zero =>
    intro piece h
    cases piece <;> simp_all [markupTo, Markup.comments]
  | succ fuel ih =>
    intro piece h
    cases piece with
    | element id =>
      rw [markupTo] at h
      split at h
      · rename_i t ht
        obtain ⟨inner, hinner, hs⟩ := Markup.mem_allComments.1 h
        obtain ⟨child, hchild, rfl⟩ := List.mem_map.1 hinner
        rcases ih child hs with hcanvas | rfl
        · exact Or.inl hcanvas
        · exact Or.inl ⟨id, t, ht, hchild⟩
      · cases h
    | text _ | raw _ | comment _ => simp_all [markupTo, Markup.comments]

/-! ## Changes to the comments -/

theorem HasComment.mono (h : c.HasComment s) (hgrows : c.Grows c') : c'.HasComment s := by
  obtain ⟨id, t, ht, hmem⟩ := h
  obtain ⟨t', ht', hdecorated⟩ := hgrows id t ht
  obtain ⟨comments, hchildren⟩ := hdecorated.children
  exact ⟨id, t', ht', hchildren ▸ List.mem_append_right _ hmem⟩

theorem hasComment_create (c : Canvas) (t : Tag) :
    (c.create t).2.HasComment s ↔ c.HasComment s ∨ .comment s ∈ t.children := by
  constructor
  · rintro ⟨id, t', ht', hmem⟩
    rw [create, Array.getElem?_push] at ht'
    split at ht'
    · cases ht'
      exact Or.inr hmem
    · exact Or.inl ⟨id, t', ht', hmem⟩
  · rintro (hold | hmem)
    · exact hold.mono (.create c t)
    · exact ⟨c.tags.size, t, Array.getElem?_push_size, hmem⟩

/-- The comments of a canvas that another one does not have are of a kind. -/
def Notes (P : String → Prop) (c c' : Canvas) : Prop :=
  ∀ s, c'.HasComment s → c.HasComment s ∨ P s

namespace Notes

variable {P : String → Prop}

theorem refl (c : Canvas) : Notes P c c := fun _ h => Or.inl h

theorem trans (h : Notes P c c') (h' : Notes P c' c'') : Notes P c c'' :=
  fun s hs => (h' s hs).elim (h s) Or.inr

theorem create (c : Canvas) {t : Tag} (h : ∀ s, .comment s ∈ t.children → P s) :
    Notes P c (c.create t).2 := fun s hs => ((hasComment_create c t).1 hs).imp_right (h s)

/-- An element can be changed as far as comments of the kind are added. -/
theorem modify (c : Canvas) (id : Nat) {f : Tag → Tag}
    (hf : ∀ t s, .comment s ∈ (f t).children → .comment s ∈ t.children ∨ P s) :
    Notes P c (c.modify id f) := by
  rintro s ⟨id', t, ht, hmem⟩
  rw [Canvas.modify, Array.getElem?_modify] at ht
  split at ht
  · obtain ⟨t', ht', rfl⟩ := Option.map_eq_some_iff.1 ht
    exact (hf t' s hmem).imp_left fun hmem => ⟨id', t', ht', hmem⟩
  · exact Or.inl ⟨id', t, ht, hmem⟩

theorem addClass (c : Canvas) (id : Nat) (name : String) : Notes P c (c.addClass id name) :=
  modify c id fun _ _ hmem => Or.inl hmem

theorem prepend_comment (c : Canvas) (id : Nat) (h : P s) :
    Notes P c (c.prepend id (.comment s)) :=
  modify c id fun t s' hmem => by
    rcases List.mem_cons.1 hmem with heq | hmem
    · cases heq
      exact Or.inr h
    · exact Or.inl hmem

end Notes

/-- A comment that is put in front of the children of an element is on the canvas. -/
theorem hasComment_prepend {id : Nat} (h : id < c.tags.size) :
    (c.prepend id (.comment s)).HasComment s := by
  refine ⟨id, { c.tags[id] with children := .comment s :: c.tags[id].children }, ?_,
    List.mem_cons_self⟩
  rw [prepend, Canvas.modify, Array.getElem?_modify, if_pos rfl, Array.getElem?_eq_getElem h]
  rfl

end Canvas

end PageCompiler
