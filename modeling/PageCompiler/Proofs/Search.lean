import Mathlib

/-!
# Searching a row of names

A row has a name for each number, and a search goes along it until it meets a name that is not
taken. The search is limited. When the names of the row differ, as many steps as there are taken
names are enough (`name_searchFree_notMem`), and the search passes over taken names only
(`name_mem_of_lt_searchFree`).
-/

namespace PageCompiler

/-- The first number from `n` upwards whose name is not taken, after `fuel` numbers at the
latest. -/
def searchFree (name : ℕ → String) (taken : List String) : (fuel n : ℕ) → ℕ
  | 0, n => n
  | fuel + 1, n => if taken.contains (name n) then searchFree name taken fuel (n + 1) else n

variable {name : ℕ → String} {taken : List String}

/-- In a row of different names that is longer than the list of the taken ones, one is free. -/
theorem exists_notMem_of_injective (hname : Function.Injective name) (taken : List String) (n : ℕ) :
    ∃ m, n ≤ m ∧ m ≤ n + taken.length ∧ name m ∉ taken := by
  by_contra hall
  push Not at hall
  have hsub : (List.range' n (taken.length + 1)).map name ⊆ taken := by
    intro key hkey
    obtain ⟨m, hm, rfl⟩ := List.mem_map.1 hkey
    rw [List.mem_range'_1] at hm
    exact hall m hm.1 (by omega)
  have hnodup : ((List.range' n (taken.length + 1)).map name).Nodup :=
    (List.nodup_range' 1).map hname
  have hlength := (List.subperm_of_subset hnodup hsub).length_le
  simp at hlength

theorem le_searchFree (name : ℕ → String) (taken : List String) (fuel n : ℕ) :
    n ≤ searchFree name taken fuel n := by
  induction fuel generalizing n with
  | zero => exact le_rfl
  | succ fuel ih =>
    rw [searchFree]
    split
    · exact (Nat.le_succ n).trans (ih (n + 1))
    · exact le_rfl

/-- **A search passes over taken names only.** -/
theorem name_mem_of_lt_searchFree {fuel n i : ℕ} (hn : n ≤ i)
    (hi : i < searchFree name taken fuel n) : name i ∈ taken := by
  induction fuel generalizing n with
  | zero => exact absurd hi (not_lt.2 hn)
  | succ fuel ih =>
    rw [searchFree] at hi
    split at hi
    · rename_i htaken
      rcases eq_or_lt_of_le hn with rfl | hn
      · simpa using htaken
      · exact ih hn hi
    · exact absurd hi (not_lt.2 hn)

/-- A search that meets a free name in its range ends at a free one. -/
theorem searchFree_of_free {fuel n m : ℕ} (hnm : n ≤ m) (hmn : m ≤ n + fuel) (hm : name m ∉ taken) :
    name (searchFree name taken fuel n) ∉ taken := by
  induction fuel generalizing n with
  | zero =>
    obtain rfl : m = n := by omega
    exact hm
  | succ fuel ih =>
    rw [searchFree]
    split
    · rename_i htaken
      have hne : m ≠ n := by
        rintro rfl
        exact hm (by simpa using htaken)
      exact ih (by omega) (by omega)
    · rename_i hfree
      simpa using hfree

/-- **A search ends at a free name,** given as many steps as there are taken ones. -/
theorem name_searchFree_notMem (hname : Function.Injective name) (taken : List String) (n : ℕ) :
    name (searchFree name taken taken.length n) ∉ taken := by
  obtain ⟨m, hnm, hmn, hm⟩ := exists_notMem_of_injective hname taken n
  exact searchFree_of_free hnm hmn hm

/-- A number has a digit. -/
theorem toString_ne_empty (n : ℕ) : toString n ≠ "" := by
  intro h
  have hdigits : (toString n).toList = Nat.toDigits 10 n := Nat.toList_repr
  rw [h] at hdigits
  exact Nat.toDigits_ne_nil hdigits.symm

end PageCompiler
