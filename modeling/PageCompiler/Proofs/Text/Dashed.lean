import PageCompiler.Proofs.Text.Parts
import PageCompiler.Text.Casing

/-!
# Dashed texts

The dashed form of a text is empty when the text has neither an ASCII letter nor an ASCII digit.
Otherwise it is a dashed text: words of small letters and digits with single dashes between them. A
dashed text is its own dashed form.

* `dashCase_eq_empty_iff`, `isDashed_dashCase`: what comes out of `dashCase`.
* `IsDashed.dashCase_eq`: what `dashCase` leaves as it is.
-/

namespace PageCompiler

/-! ## Characters -/

/-- The characters of the words of a dashed text: small letters and digits. -/
def isSmall (c : Char) : Bool := c.isLower || c.isDigit

theorem not_isUpper_of_isDigit {c : Char} (h : c.isDigit) : ¬ c.isUpper := by
  simp only [Char.isDigit, Char.isUpper, Bool.and_eq_true, decide_eq_true_eq,
    UInt32.le_iff_toNat_le, ge_iff_le] at h ⊢
  change 48 ≤ c.toNat ∧ c.toNat ≤ 57 at h
  change ¬ (65 ≤ c.toNat ∧ c.toNat ≤ 90)
  omega

theorem isSmall_toLower {c : Char} (h : c.isAlphanum) : isSmall c.toLower := by
  rcases Bool.or_eq_true_iff.1 h with halpha | hdigit
  · rw [isSmall, Char.isLower_toLower_eq_isAlpha, halpha, Bool.true_or]
  · rw [Char.toLower_eq_of_not_isUpper (not_isUpper_of_isDigit hdigit), isSmall, hdigit,
      Bool.or_true]

theorem not_isUpper_of_isSmall {c : Char} (h : isSmall c) : ¬ c.isUpper := by
  rcases Bool.or_eq_true_iff.1 h with hlower | hdigit
  · exact Char.not_isUpper_of_isLower hlower
  · exact not_isUpper_of_isDigit hdigit

theorem isAlphanum_of_isSmall {c : Char} (h : isSmall c) : c.isAlphanum := by
  rcases Bool.or_eq_true_iff.1 h with hlower | hdigit
  · rw [Char.isAlphanum, Char.isAlpha, hlower, Bool.or_true, Bool.true_or]
  · rw [Char.isAlphanum, hdigit, Bool.or_true]

/-! ## The form -/

/-- Words of small letters and digits, with single dashes between them. -/
def IsDashed (s : String) : Prop :=
  ∃ ws : List (List Char), ws ≠ [] ∧ (∀ w ∈ ws, w ≠ [] ∧ ∀ c ∈ w, isSmall c) ∧
    s.toList = ['-'].intercalate ws

/-- A text with an ASCII letter or an ASCII digit. -/
def HasWord (s : String) : Prop := ∃ c ∈ s.toList, c.isAlphanum

instance (s : String) : Decidable (HasWord s) :=
  decidable_of_iff (s.toList.any Char.isAlphanum) List.any_eq_true

namespace IsDashed

variable {s : String}

/-- A dashed text begins with a small letter or a digit. -/
theorem exists_head (h : IsDashed s) : ∃ c rest, s.toList = c :: rest ∧ isSmall c := by
  obtain ⟨ws, hne, hws, hs⟩ := h
  obtain ⟨w, more, rfl⟩ := List.exists_cons_of_ne_nil hne
  obtain ⟨hw, hsmall⟩ := hws w List.mem_cons_self
  obtain ⟨c, w, rfl⟩ := List.exists_cons_of_ne_nil hw
  exact ⟨c, ['-'].intercalate (w :: more), by rw [hs, List.intercalate_cons_cons_left],
    hsmall c List.mem_cons_self⟩

theorem mem (h : IsDashed s) {c : Char} (hc : c ∈ s.toList) : isSmall c ∨ c = '-' := by
  obtain ⟨ws, -, hws, hs⟩ := h
  rw [hs] at hc
  rcases mem_intercalate hc with hdash | ⟨w, hw, hc⟩
  · exact Or.inr (List.mem_singleton.1 hdash)
  · exact Or.inl ((hws w hw).2 c hc)

/-- A dashed text with one more word. -/
theorem concat (h : IsDashed s) {w : String} (hw : w ≠ "") (hsmall : ∀ c ∈ w.toList, isSmall c) :
    IsDashed (s ++ "-" ++ w) := by
  obtain ⟨ws, hne, hws, hs⟩ := h
  refine ⟨ws ++ [w.toList], by simp, ?_, ?_⟩
  · rw [List.forall_mem_append, List.forall_mem_singleton]
    exact ⟨hws, fun hnil => hw (String.toList_inj.1 hnil), hsmall⟩
  · rw [intercalate_concat hne, String.toList_append, String.toList_append, hs]
    rfl

end IsDashed

/-! ## The dashed form of a text -/

/-- Apart from dashes, the breaks leave the characters as they are. -/
theorem mem_breakHumps {c : Char} (hc : c ≠ '-') (cs : List Char) :
    c ∈ breakHumps cs ↔ c ∈ cs := by
  fun_induction breakHumps cs with
  | case1 => rfl
  | case2 => rfl
  | case3 a d rest hbreak ih => rw [List.mem_cons, List.mem_cons, List.mem_cons, ih]; tauto
  | case4 a d rest hbreak ih => rw [List.mem_cons, List.mem_cons, ih]

/-- A text without capitals has no humps. -/
theorem breakHumps_eq_self {cs : List Char} (h : ∀ c ∈ cs, ¬ c.isUpper) : breakHumps cs = cs := by
  fun_induction breakHumps cs with
  | case1 => rfl
  | case2 => rfl
  | case3 c d rest hbreak ih =>
    have hd := h d (List.mem_cons_of_mem _ List.mem_cons_self)
    exact absurd (Bool.and_eq_true_iff.1 hbreak).2 hd
  | case4 c d rest hbreak ih => rw [ih fun c hc => h c (List.mem_cons_of_mem _ hc)]

theorem toList_dashCase (s : String) : (dashCase s).toList =
    ['-'].intercalate ((words (breakHumps s.toList)).map (·.map Char.toLower)) := by
  rw [dashCase, String.toList_ofList]

theorem words_breakHumps_eq_nil_iff {s : String} :
    words (breakHumps s.toList) = [] ↔ ¬ HasWord s := by
  rw [words, piecesBy_eq_nil_iff, HasWord]
  push Not
  refine ⟨fun h c hc halnum => ?_, fun h c hc => ?_⟩
  · have hdash : c ≠ '-' := by
      rintro rfl
      exact absurd halnum (by decide)
    simpa [halnum] using h c ((mem_breakHumps hdash _).2 hc)
  · by_cases hdash : c = '-'
    · rw [hdash]
      decide
    · simpa using h c ((mem_breakHumps hdash _).1 hc)

/-- **The dashed form of a text with a letter or a digit is a dashed text.** -/
theorem isDashed_dashCase {s : String} (h : HasWord s) : IsDashed (dashCase s) := by
  refine ⟨(words (breakHumps s.toList)).map (·.map Char.toLower), ?_, fun w hw => ?_,
    toList_dashCase s⟩
  · rw [Ne, List.map_eq_nil_iff, words_breakHumps_eq_nil_iff]
    exact not_not.2 h
  · obtain ⟨piece, hpiece, rfl⟩ := List.mem_map.1 hw
    refine ⟨by simpa using ne_nil_of_mem_piecesBy hpiece, fun c hc => ?_⟩
    obtain ⟨d, hd, rfl⟩ := List.mem_map.1 hc
    exact isSmall_toLower (by simpa using not_of_mem_piecesBy hpiece hd)

/-- **Only texts without letters and digits have an empty dashed form.** -/
theorem dashCase_eq_empty_iff {s : String} : dashCase s = "" ↔ ¬ HasWord s := by
  constructor
  · intro hempty hword
    obtain ⟨c, rest, hs, -⟩ := (isDashed_dashCase hword).exists_head
    rw [hempty] at hs
    cases hs
  · intro h
    rw [dashCase, words_breakHumps_eq_nil_iff.2 h]
    rfl

/-- **A dashed text is its own dashed form.** -/
theorem IsDashed.dashCase_eq {s : String} (h : IsDashed s) : dashCase s = s := by
  have hupper : ∀ c ∈ s.toList, ¬ c.isUpper := by
    intro c hc
    rcases h.mem hc with hsmall | rfl
    · exact not_isUpper_of_isSmall hsmall
    · decide
  obtain ⟨ws, -, hws, hs⟩ := h
  have hwords : words s.toList = ws := by
    rw [words, hs]
    exact piecesBy_intercalate (by decide) fun w hw =>
      ⟨(hws w hw).1, fun c hc => by simp [isAlphanum_of_isSmall ((hws w hw).2 c hc)]⟩
  have hword : ∀ w ∈ ws, w.map Char.toLower = w := fun w hw =>
    (List.map_congr_left fun c hc =>
      Char.toLower_eq_of_not_isUpper (not_isUpper_of_isSmall ((hws w hw).2 c hc))).trans
      (List.map_id w)
  have hlower : ws.map (·.map Char.toLower) = ws :=
    (List.map_congr_left hword).trans (List.map_id ws)
  rw [← String.toList_inj, toList_dashCase, breakHumps_eq_self hupper, hwords, hlower, hs]

end PageCompiler
