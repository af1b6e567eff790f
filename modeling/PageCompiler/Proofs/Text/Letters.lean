import PageCompiler.Proofs.Text.Dashed

/-!
# Letters and digits of a dashed form

The dashed form of a text is a normal form: a dashed text, or the empty text where there is no
letter and no digit. Taking it only puts dashes in, takes other characters out and makes letters
small, so the ASCII letters and digits are those of the text, in its order.

* `filter_dashCase`: the letters and digits of the dashed form.
* `dashCase_normalizes`: the form, the letters and digits, and that it is its own dashed form.
-/

namespace PageCompiler

/-! ## What joining and taking apart keep -/

/-- The pieces of a text, run together, are the text without what separates them. -/
theorem flatten_piecesBy (p : Char → Bool) (cs : List Char) :
    (piecesBy p cs).flatten = cs.filter fun c => !p c := by
  induction cs with
  | nil => rfl
  | cons c rest ih =>
    by_cases hc : p c
    · rw [piecesBy_of_pos hc, ih, List.filter_cons_of_neg (by simp [hc])]
    rw [List.filter_cons_of_pos (by simp [hc]), ← ih]
    cases rest with
    | nil => simp [piecesBy, hc]
    | cons d tail =>
      rw [piecesBy, if_neg hc]
      by_cases hd : p d
      · rw [if_pos hd, List.flatten_cons, List.singleton_append]
      · rw [if_neg hd]
        cases piecesBy p (d :: tail) <;> rfl

/-- What the separator has nothing of is kept by joining. -/
theorem filter_intercalate {α : Type} {keep : α → Bool} {sep : List α} (h : ∀ a ∈ sep, ¬ keep a)
    (ls : List (List α)) : (sep.intercalate ls).filter keep = ls.flatten.filter keep := by
  induction ls with
  | nil => rfl
  | cons l rest ih =>
    cases rest with
    | nil => rw [List.intercalate_singleton, List.flatten_singleton]
    | cons next rest =>
      have hsep : sep.filter keep = [] := List.filter_eq_nil_iff.2 h
      rw [List.intercalate_cons_cons, List.filter_append, List.filter_append, hsep, ih,
        List.append_nil, ← List.filter_append, ← List.flatten_cons]

/-! ## Characters -/

theorem isAlphanum_toLower (c : Char) : c.toLower.isAlphanum = c.isAlphanum := by
  by_cases hupper : c.isUpper
  · have halnum : c.isAlphanum := by simp [Char.isAlphanum, Char.isAlpha, hupper]
    rw [halnum, isAlphanum_of_isSmall (isSmall_toLower halnum)]
  · rw [Char.toLower_eq_of_not_isUpper hupper]

theorem filter_map_toLower (cs : List Char) : (cs.map Char.toLower).filter Char.isAlphanum =
    (cs.filter Char.isAlphanum).map Char.toLower := by
  rw [List.filter_map]
  exact congrArg _ (List.filter_congr fun c _ => isAlphanum_toLower c)

/-! ## The dashed form of a text -/

/-- The breaks put in dashes only. -/
theorem filter_breakHumps (cs : List Char) :
    (breakHumps cs).filter Char.isAlphanum = cs.filter Char.isAlphanum := by
  fun_induction breakHumps cs with
  | case1 => rfl
  | case2 => rfl
  | case3 c d rest hbreak ih =>
    rw [List.filter_cons, List.filter_cons_of_neg (by decide), ih]
    exact List.filter_cons.symm
  | case4 c d rest hbreak ih =>
    rw [List.filter_cons, ih]
    exact List.filter_cons.symm

/-- **The dashed form has the ASCII letters and digits of the text, in order and in lower case.** -/
theorem filter_dashCase (s : String) : (dashCase s).toList.filter Char.isAlphanum =
    (s.toList.filter Char.isAlphanum).map Char.toLower := by
  have hdash : ∀ c ∈ ['-'], ¬ Char.isAlphanum c := List.forall_mem_singleton.2 (by decide)
  have hwords : (words (breakHumps s.toList)).flatten = s.toList.filter Char.isAlphanum := by
    rw [words, flatten_piecesBy, ← filter_breakHumps s.toList]
    simp only [Bool.not_not]
  have hkept : ∀ c ∈ s.toList.filter Char.isAlphanum, Char.isAlphanum c :=
    fun c hc => (List.mem_filter.1 hc).2
  rw [toList_dashCase, filter_intercalate hdash, ← List.map_flatten, hwords, filter_map_toLower,
    List.filter_eq_self.2 hkept]

/-- **The dashed form of a text is a normal form.** It is empty or a dashed text, empty just when
the text has no ASCII letter or digit, has the letters and digits of the text in order, and is its
own dashed form. -/
theorem dashCase_normalizes (s : String) :
    (dashCase s = "" ∨ IsDashed (dashCase s)) ∧
    (dashCase s = "" ↔ ¬ HasWord s) ∧
    (dashCase s).toList.filter Char.isAlphanum =
      (s.toList.filter Char.isAlphanum).map Char.toLower ∧
    dashCase (dashCase s) = dashCase s := by
  have hform : dashCase s = "" ∨ IsDashed (dashCase s) := by
    by_cases hword : HasWord s
    · exact Or.inr (isDashed_dashCase hword)
    · exact Or.inl (dashCase_eq_empty_iff.2 hword)
  refine ⟨hform, dashCase_eq_empty_iff, filter_dashCase s, ?_⟩
  rcases hform with hempty | hdashed
  · rw [hempty]
    rfl
  · exact hdashed.dashCase_eq

end PageCompiler
