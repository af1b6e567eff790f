import Mathlib
import PageCompiler.Text.Blank

/-!
# Parts of texts

What stands in a text that is joined from others, and what stands in it as a word: with white space
or an end of the text on both sides.

* `infix_intercalate`: a text stands in a joined one.
* `StandsIn.of_mem_blankWords`: the pieces between white space are words of a text.
-/

namespace PageCompiler

/-- A text stands in one that is joined from it and others. -/
theorem infix_intercalate (sep : String) {s : String} {l : List String} (h : s ∈ l) :
    s.toList <:+: (sep.intercalate l).toList := by
  induction l with
  | nil => cases h
  | cons t rest ih =>
    cases rest with
    | nil =>
      obtain rfl := List.mem_singleton.1 h
      rw [String.intercalate_singleton]
    | cons u rest =>
      rw [String.intercalate_cons_cons, String.toList_append, String.toList_append]
      rcases List.mem_cons.1 h with rfl | h
      · exact ((List.prefix_append _ _).trans (List.prefix_append _ _)).isInfix
      · exact (ih h).trans (List.suffix_append _ _).isInfix

theorem mem_intercalate {α : Type} {sep : List α} {ls : List (List α)} {a : α}
    (h : a ∈ sep.intercalate ls) : a ∈ sep ∨ ∃ l ∈ ls, a ∈ l := by
  induction ls with
  | nil => cases h
  | cons l rest ih =>
    cases rest with
    | nil =>
      rw [List.intercalate_singleton] at h
      exact Or.inr ⟨l, List.mem_cons_self, h⟩
    | cons l' rest =>
      rw [List.intercalate_cons_cons, List.mem_append, List.mem_append] at h
      rcases h with (hl | hsep) | hrest
      · exact Or.inr ⟨l, List.mem_cons_self, hl⟩
      · exact Or.inl hsep
      · exact (ih hrest).imp_right fun ⟨m, hm, ha⟩ => ⟨m, List.mem_cons_of_mem _ hm, ha⟩

theorem intercalate_concat {α : Type} {sep : List α} {ls : List (List α)} (h : ls ≠ [])
    (l : List α) : sep.intercalate (ls ++ [l]) = sep.intercalate ls ++ sep ++ l := by
  induction ls with
  | nil => exact absurd rfl h
  | cons first rest ih =>
    cases rest with
    | nil => simp
    | cons next rest =>
      rw [List.cons_append, List.intercalate_cons_of_ne_nil (by simp), ih (List.cons_ne_nil _ _),
        List.intercalate_cons_cons]
      simp only [List.append_assoc]

/-- A text stands in another one as a word. -/
def StandsIn (word s : String) : Prop :=
  ∃ front back, s.toList = front ++ word.toList ++ back ∧
    (∀ c ∈ front.getLast?, isBlankChar c) ∧ ∀ c ∈ back.head?, isBlankChar c

section Pieces

variable {p : Char → Bool}

theorem piecesBy_of_pos {c : Char} (hc : p c) (rest : List Char) :
    piecesBy p (c :: rest) = piecesBy p rest := by
  cases rest <;> simp [piecesBy, hc]

/-- The first piece of a text that begins with one. -/
theorem piecesBy_of_neg {c : Char} (hc : ¬ p c) (rest : List Char) :
    ∃ piece back, piecesBy p (c :: rest) = piece :: piecesBy p back ∧ c :: rest = piece ++ back ∧
      ∀ d ∈ back.head?, p d := by
  induction rest generalizing c with
  | nil => exact ⟨[c], [], by simp [piecesBy, hc], rfl, by simp⟩
  | cons d rest ih =>
    rw [piecesBy, if_neg hc]
    by_cases hd : p d
    · rw [if_pos hd]
      exact ⟨[c], d :: rest, rfl, rfl, by simpa using hd⟩
    · obtain ⟨piece, back, hpieces, hsplit, hback⟩ := ih hd
      rw [if_neg hd, hpieces]
      exact ⟨c :: piece, back, rfl, by rw [hsplit, List.cons_append], hback⟩

/-- A piece stands between characters of the kind that separates. -/
theorem exists_of_mem_piecesBy : ∀ (n : ℕ) {cs piece : List Char}, cs.length ≤ n →
    piece ∈ piecesBy p cs → ∃ front back, cs = front ++ piece ++ back ∧
      (∀ c ∈ front.getLast?, p c) ∧ ∀ c ∈ back.head?, p c
  | _, [], _, _, h => by cases h
  | n + 1, c :: rest, piece, hn, h => by
    have hn : rest.length ≤ n := by simpa using hn
    by_cases hc : p c
    · rw [piecesBy_of_pos hc] at h
      obtain ⟨front, back, rfl, hfront, hback⟩ := exists_of_mem_piecesBy n hn h
      refine ⟨c :: front, back, rfl, ?_, hback⟩
      cases front with
      | nil => simpa using hc
      | cons d front => simpa using hfront
    · obtain ⟨first, back, hpieces, hsplit, hback⟩ := piecesBy_of_neg hc rest
      rw [hpieces] at h
      rcases List.mem_cons.1 h with rfl | h
      · exact ⟨[], back, hsplit, by simp, hback⟩
      · cases back with
        | nil => cases h
        | cons d back =>
          have hd : p d := by simpa using hback
          rw [piecesBy_of_pos hd] at h
          have hlength : back.length ≤ n := by
            have hlengths := congrArg List.length hsplit
            simp only [List.length_append, List.length_cons] at hlengths
            omega
          obtain ⟨front, behind, rfl, hfront, hbehind⟩ := exists_of_mem_piecesBy n hlength h
          refine ⟨first ++ d :: front, behind, by simp [hsplit], ?_, hbehind⟩
          cases front with
          | nil => simpa using hd
          | cons x front => simpa using hfront

/-- No character in a piece is of the kind that separates. -/
theorem not_of_mem_piecesBy {cs piece : List Char} (h : piece ∈ piecesBy p cs) {c : Char}
    (hc : c ∈ piece) : ¬ p c := by
  induction cs generalizing piece with
  | nil => cases h
  | cons d rest ih =>
    by_cases hd : p d
    · rw [piecesBy_of_pos hd] at h
      exact ih h hc
    unfold piecesBy at h
    rw [if_neg hd] at h
    split at h
    · obtain rfl := List.mem_singleton.1 h
      exact List.mem_singleton.1 hc ▸ hd
    split at h
    · rcases List.mem_cons.1 h with rfl | h
      · exact List.mem_singleton.1 hc ▸ hd
      · exact ih h hc
    split at h
    · obtain rfl := List.mem_singleton.1 h
      exact List.mem_singleton.1 hc ▸ hd
    · rename_i first others hrest
      rcases List.mem_cons.1 h with rfl | h
      · rcases List.mem_cons.1 hc with rfl | hc
        · exact hd
        · exact ih (hrest ▸ List.mem_cons_self) hc
      · exact ih (hrest ▸ List.mem_cons_of_mem _ h) hc

/-- A piece has a character. -/
theorem ne_nil_of_mem_piecesBy {cs piece : List Char} (h : piece ∈ piecesBy p cs) : piece ≠ [] := by
  fun_induction piecesBy p cs generalizing piece <;> grind

/-- The first piece is followed by a separator or by the end. -/
theorem piecesBy_append {piece : List Char} (hne : piece ≠ [])
    (hpiece : ∀ c ∈ piece, ¬ p c) {back : List Char} (hback : ∀ c ∈ back.head?, p c) :
    piecesBy p (piece ++ back) = piece :: piecesBy p back := by
  induction piece with
  | nil => exact absurd rfl hne
  | cons c piece ih =>
    have hc : ¬ p c := hpiece c List.mem_cons_self
    have hrest : ∀ d ∈ piece, ¬ p d := fun d hd => hpiece d (List.mem_cons_of_mem _ hd)
    cases piece with
    | nil =>
      cases back with
      | nil => simp [piecesBy, hc]
      | cons d back =>
        have hd : p d := by simpa using hback
        rw [List.singleton_append, piecesBy, if_neg hc, if_pos hd]
    | cons d piece =>
      have hd : ¬ p d := hrest d List.mem_cons_self
      rw [List.cons_append, List.cons_append, piecesBy, if_neg hc, if_neg hd, ← List.cons_append,
        ih (List.cons_ne_nil _ _) hrest]

theorem piecesBy_intercalate {sep : Char} (hsep : p sep)
    {pieces : List (List Char)} (h : ∀ piece ∈ pieces, piece ≠ [] ∧ ∀ c ∈ piece, ¬ p c) :
    piecesBy p ([sep].intercalate pieces) = pieces := by
  induction pieces with
  | nil => rfl
  | cons piece rest ih =>
    obtain ⟨hne, hpiece⟩ := h piece List.mem_cons_self
    have ih := ih fun piece hpiece => h piece (List.mem_cons_of_mem _ hpiece)
    cases rest with
    | nil =>
      have hpieces : piecesBy p (piece ++ []) = [piece] := piecesBy_append hne hpiece nofun
      simpa using hpieces
    | cons next rest =>
      rw [List.intercalate_cons_cons, List.append_assoc, List.singleton_append,
        piecesBy_append hne hpiece (by simpa using hsep), piecesBy_of_pos hsep, ih]

/-- A separator between two texts keeps their pieces apart. -/
theorem piecesBy_append_cons {sep : Char} (hsep : p sep) (cs ds : List Char) :
    piecesBy p (cs ++ sep :: ds) = piecesBy p cs ++ piecesBy p ds := by
  induction cs with
  | nil => exact piecesBy_of_pos hsep ds
  | cons c rest ih =>
    rw [List.cons_append]
    by_cases hc : p c
    · rw [piecesBy_of_pos hc, piecesBy_of_pos hc, ih]
    cases rest with
    | nil =>
      have hlast : piecesBy p [c] = [[c]] := by rw [piecesBy, if_neg hc]
      have hfirst : piecesBy p (c :: sep :: ds) = [c] :: piecesBy p (sep :: ds) := by
        rw [piecesBy, if_neg hc, if_pos hsep]
      rw [List.nil_append, hfirst, hlast, piecesBy_of_pos hsep, List.singleton_append]
    | cons d tail =>
      rw [List.cons_append] at ih ⊢
      rw [piecesBy, piecesBy, if_neg hc, if_neg hc, ih]
      by_cases hd : p d
      · rw [if_pos hd, if_pos hd, List.cons_append]
      · obtain ⟨piece, back, hpieces, -, -⟩ := piecesBy_of_neg hd tail
        rw [if_neg hd, if_neg hd, hpieces]
        rfl

end Pieces

namespace StandsIn

variable {word s : String}

theorem self (word : String) : StandsIn word word := ⟨[], [], by simp, by simp, by simp⟩

theorem of_mem_blankWords (h : word ∈ blankWords s) : StandsIn word s := by
  obtain ⟨piece, hpiece, rfl⟩ := List.mem_map.1 h
  obtain ⟨front, back, hcs, hfront, hback⟩ := exists_of_mem_piecesBy _ le_rfl hpiece
  exact ⟨front, back, by rw [hcs, String.toList_ofList], hfront, hback⟩

/-- A word is put behind a text, with a space between them. -/
theorem last (s word : String) : StandsIn word (s ++ " " ++ word) :=
  ⟨s.toList ++ [' '], [], by simp, by simp; decide, by simp⟩

theorem append (h : StandsIn word s) (more : String) : StandsIn word (s ++ " " ++ more) := by
  obtain ⟨front, back, hcs, hfront, hback⟩ := h
  refine ⟨front, back ++ ' ' :: more.toList, by simp [hcs], hfront, ?_⟩
  cases back with
  | nil => simp; decide
  | cons c back => simpa using hback

/-- Only the empty text stands in the empty text. -/
theorem eq_empty (h : StandsIn word "") : word = "" := by
  obtain ⟨front, back, hcs, -, -⟩ := h
  simp only [String.toList_empty, List.nil_eq, List.append_eq_nil_iff] at hcs
  exact String.toList_inj.1 hcs.1.2

end StandsIn

end PageCompiler
