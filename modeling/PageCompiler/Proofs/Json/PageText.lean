import Mathlib
import PageCompiler.Json.Text

/-!
# Numbers in a page

A whole number is kept apart from binary floating-point numbers, and a constant of a document is
always one of the latter. In a page both have the same text, unless the number has sixteen digits or
more: then the whole number is printed digit by digit, and the other one as floating-point numbers
are.

* `Binary64.ofNatSize_of_lt`: whole numbers below `2 ^ 53` are exact.
* `Binary64.text_ne_toString`: the text of a floating-point number is not that of a whole number.
* `Json.Number.pageText_toReal_iff`: when a number has the same text in floating point.
-/

namespace PageCompiler

namespace Binary64

/-! ## Whole numbers -/

theorem step_of_le {num : Nat} (h : 2 ^ 53 ≤ num) : step num = 2 ^ (Nat.log2 num - 52) :=
  if_neg (not_lt.2 h)

theorem step_pos (num : Nat) : 0 < step num := by
  rw [step]
  split
  · exact Nat.one_pos
  · exact Nat.two_pow_pos _

/-- What is a multiple of the step at its size is kept. -/
theorem nearest_of_dvd {num : Nat} (h : step num ∣ num) : nearest num 1 = num := by
  have hrest : num % step num = 0 := Nat.mod_eq_zero_of_dvd h
  rw [nearest]
  simp only [Nat.div_one, Nat.one_mul, hrest]
  have hkeep : ¬ (decide (2 * 0 > step num) || (decide (2 * 0 = step num)
      && decide (num / step num % 2 = 1))) = true := by
    have hpos := step_pos num
    simp [hpos.ne]
  rw [if_neg hkeep, Nat.div_mul_cancel h]

/-- Nothing is rounded by a whole step. -/
theorem le_nearest (num : Nat) : num / step num * step num ≤ nearest num 1 := by
  rw [nearest]
  simp only [Nat.div_one, Nat.one_mul]
  split
  · exact Nat.mul_le_mul_right _ (Nat.le_succ _)
  · exact le_rfl

/-- The number one is a power of two, and not a small one. -/
theorem exists_one_eq : ∃ k, 53 ≤ k ∧ one = Nat.pow 2 k := by
  refine ⟨1074, by decide, ?_⟩
  unfold one
  rfl

theorem one_pos : 0 < one := by
  obtain ⟨k, -, hone⟩ := exists_one_eq
  rw [hone]
  exact Nat.two_pow_pos k

/-- **Whole numbers below `2 ^ 53` are exact.** -/
theorem ofNatSize_of_lt {n : Nat} (h : n < 2 ^ 53) : ofNatSize n = n * one := by
  obtain ⟨k, hk, hone⟩ := exists_one_eq
  rw [ofNatSize, hone, Nat.pow_eq]
  apply nearest_of_dvd
  rcases Nat.eq_zero_or_pos n with rfl | hpos
  · rw [Nat.zero_mul]
    exact Nat.dvd_zero _
  have hlow : 2 ^ 53 ≤ n * 2 ^ k := by
    calc 2 ^ 53 ≤ 2 ^ k := Nat.pow_le_pow_right (by decide) hk
      _ ≤ n * 2 ^ k := Nat.le_mul_of_pos_left _ hpos
  -- the step is at most one, so it divides every whole number
  have hlog : Nat.log2 (n * 2 ^ k) < 53 + k := by
    rw [Nat.log2_lt (by omega), Nat.pow_add]
    exact Nat.mul_lt_mul_of_pos_right h (Nat.two_pow_pos k)
  rw [step_of_le hlow]
  exact Nat.dvd_mul_left_of_dvd (Nat.pow_dvd_pow 2 (by omega)) n

/-- A larger whole number is not rounded below that bound. -/
theorem le_ofNatSize {n : Nat} (h : 2 ^ 53 ≤ n) : 2 ^ 53 * one ≤ ofNatSize n := by
  obtain ⟨k, hk, hone⟩ := exists_one_eq
  rw [ofNatSize, hone, Nat.pow_eq]
  have hnum : 2 ^ (53 + k) ≤ n * 2 ^ k := by
    rw [Nat.pow_add]
    exact Nat.mul_le_mul_right _ h
  generalize n * 2 ^ k = num at hnum
  have hne : num ≠ 0 := by
    rintro rfl
    exact absurd hnum (not_le.2 (Nat.two_pow_pos _))
  have hlog : 53 + k ≤ Nat.log2 num := (Nat.le_log2 hne).2 hnum
  have hstep : step num = 2 ^ (Nat.log2 num - 52) :=
    step_of_le (le_trans (Nat.pow_le_pow_right (by decide) (Nat.le_add_right 53 k)) hnum)
  have hsplit : 2 ^ Nat.log2 num = 2 ^ 52 * step num := by
    rw [hstep, ← Nat.pow_add, Nat.add_sub_cancel' (by omega)]
  have hquotient : 2 ^ 52 ≤ num / step num := by
    rw [Nat.le_div_iff_mul_le (step_pos _), ← hsplit]
    exact Nat.log2_self_le hne
  calc 2 ^ 53 * 2 ^ k = 2 ^ (53 + k) := (Nat.pow_add ..).symm
    _ ≤ 2 ^ Nat.log2 num := Nat.pow_le_pow_right (by decide) hlog
    _ = 2 ^ 52 * step num := hsplit
    _ ≤ num / step num * step num := Nat.mul_le_mul_right _ hquotient
    _ ≤ nearest num 1 := le_nearest _

theorem magnitude_ofInt (i : Int) : (ofInt i).magnitude = ofNatSize i.natAbs := by rw [ofInt]

theorem negative_ofInt (i : Int) : (ofInt i).negative = decide (i < 0) := by rw [ofInt]

theorem toInt?_of_magnitude {x : Binary64} {n : Nat} (h : x.magnitude = n * one) :
    x.toInt? = some (if x.negative then -(n : Int) else n) := by
  rw [toInt?, h, if_pos (Nat.mul_mod_left n one), Nat.mul_div_cancel n one_pos]

theorem toInt?_ofInt {i : Int} (h : i.natAbs < 2 ^ 53) : (ofInt i).toInt? = some i := by
  have hmagnitude : (ofInt i).magnitude = i.natAbs * one := by
    rw [magnitude_ofInt, ofNatSize_of_lt h]
  rw [toInt?_of_magnitude hmagnitude, negative_ofInt]
  by_cases hneg : i < 0
  · rw [if_pos (decide_eq_true hneg), Int.ofNat_natAbs_of_nonpos hneg.le, neg_neg]
  · rw [if_neg (by simpa using hneg), Int.natAbs_of_nonneg (not_lt.1 hneg)]

/-- A whole number from `10 ^ 15` on is not rounded below it. -/
theorem le_of_toInt?_ofInt {i j : Int} (h : 10 ^ 15 ≤ i.natAbs) (hj : (ofInt i).toInt? = some j) :
    10 ^ 15 ≤ j.natAbs := by
  by_cases hi : i.natAbs < 2 ^ 53
  · rw [toInt?_ofInt hi] at hj
    obtain rfl := Option.some.inj hj
    exact h
  have hquotient : 2 ^ 53 ≤ (ofInt i).magnitude / one := by
    rw [Nat.le_div_iff_mul_le one_pos, magnitude_ofInt]
    exact le_ofNatSize (not_lt.1 hi)
  have hj' : j.natAbs = (ofInt i).magnitude / one := by
    rw [toInt?] at hj
    split at hj
    · obtain rfl := Option.some.inj hj
      split
      · rw [Int.natAbs_neg, Int.natAbs_natCast]
      · exact Int.natAbs_natCast _
    · cases hj
  rw [hj']
  exact le_trans (by decide) hquotient

/-! ## Texts -/

/-- The text of a positive size has a point or an exponent. -/
theorem mark_sizeText (size : Nat) :
    '.' ∈ (sizeText size).toList ∨ 'e' ∈ (sizeText size).toList := by
  rw [sizeText]
  rcases shortest size with ⟨digits, exponent⟩
  dsimp only
  split
  · simp
  split
  · simp
  split
  · simp
  · simp

theorem mark_text (x : Binary64) : '.' ∈ x.text.toList ∨ 'e' ∈ x.text.toList := by
  rw [text, String.toList_append]
  split <;> split <;> simp [mark_sizeText]

/-- The text of a whole number has neither. -/
theorem isDigit_of_mem_toString {i : Int} {c : Char} (h : c ∈ (toString i).toList) :
    c = '-' ∨ c.isDigit := by
  have hdigit : ∀ n : Nat, c ∈ n.repr.toList → c.isDigit := by
    intro n hc
    rw [Nat.toList_repr] at hc
    exact Nat.isDigit_of_mem_toDigits (by decide) le_rfl hc
  rw [Int.toString_eq_repr, Int.repr_eq_if] at h
  split at h
  · exact Or.inr (hdigit _ h)
  · rw [String.toList_append, List.mem_append] at h
    exact h.imp (by simp) (hdigit _)

/-- **No floating-point number has the text of a whole number.** -/
theorem text_ne_toString (x : Binary64) (i : Int) : x.text ≠ toString i := by
  intro heq
  have hmark := mark_text x
  rw [heq] at hmark
  rcases hmark with hmark | hmark
  · exact absurd (isDigit_of_mem_toString hmark) (by decide)
  · exact absurd (isDigit_of_mem_toString hmark) (by decide)

end Binary64

namespace Json

/-- A whole number of sixteen digits or more. -/
def Number.IsLong (n : Number) : Prop := ∃ i : Int, n = .integer i ∧ 10 ^ 15 ≤ i.natAbs

/-- A number that is not a short whole one is printed as floating-point numbers are. -/
theorem Number.pageText_of_long {x : Binary64} (h : ∀ j, x.toInt? = some j → 10 ^ 15 ≤ j.natAbs) :
    (Number.real x).pageText = x.text := by
  rcases hwhole : x.toInt? with _ | j
  · rw [pageText, hwhole, text]
  · have hlong : ¬ j.natAbs < Nat.pow 10 15 := not_lt.2 (h j hwhole)
    simp only [pageText, hwhole, if_neg hlong, text]

theorem Number.pageText_of_short {x : Binary64} {j : Int} (hwhole : x.toInt? = some j)
    (h : j.natAbs < 10 ^ 15) : (Number.real x).pageText = toString j := by
  have hshort : j.natAbs < Nat.pow 10 15 := h
  simp only [pageText, hwhole, if_pos hshort]

/-- **When a number has the same text in floating point**: always, unless it is a whole number of
sixteen digits or more. -/
theorem Number.pageText_toReal_iff (n : Number) :
    (Number.real n.toReal).pageText = n.pageText ↔ ¬ n.IsLong := by
  cases n with
  | real x => exact iff_of_true rfl fun ⟨_, h, _⟩ => nomatch h
  | integer i =>
    by_cases hlong : 10 ^ 15 ≤ i.natAbs
    · refine iff_of_false ?_ fun hnot => hnot ⟨i, rfl, hlong⟩
      rw [toReal, pageText_of_long fun j => Binary64.le_of_toInt?_ofInt hlong]
      exact Binary64.text_ne_toString _ i
    · have hshort : i.natAbs < 10 ^ 15 := not_le.1 hlong
      have hwhole := Binary64.toInt?_ofInt (lt_trans hshort (by decide))
      refine iff_of_true (pageText_of_short hwhole hshort) fun ⟨j, heq, hj⟩ => hlong ?_
      cases heq
      exact hj

end Json

end PageCompiler
