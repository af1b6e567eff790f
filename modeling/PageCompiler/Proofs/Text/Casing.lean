import PageCompiler.Proofs.Keys.Ledger
import PageCompiler.Proofs.Text.Dashed
import PageCompiler.Text.Sha256

/-!
# Characters of dashed texts

A dashed text consists of letters, digits and dashes. So does a key that is made from one, and in a
selector it can be told from what follows behind a colon.

* `Claimable.colon_notMem`: no key that an element can claim has a colon.
* `colon_notMem_suffix`: neither has a suffix for keys.
-/

namespace PageCompiler

theorem colon_notMem_dashCase (s : String) : ':' ∉ (dashCase s).toList := by
  intro h
  by_cases hword : HasWord s
  · rcases (isDashed_dashCase hword).mem h with hsmall | hdash
    · exact absurd hsmall (by decide)
    · exact absurd hdash (by decide)
  · rw [dashCase_eq_empty_iff.2 hword] at h
    cases h

/-- A hexadecimal suffix has no colon. -/
theorem colon_notMem_suffix (s : String) : ':' ∉ (Sha256.suffix s).toList := by
  have hdigit : ∀ n : Fin 16, Sha256.hexDigit n ≠ ':' := by decide
  rw [Sha256.suffix, String.toList_ofList]
  intro h
  obtain ⟨i, -, hcolon⟩ := List.mem_map.1 h
  exact hdigit ⟨_, Nat.mod_lt _ (by omega)⟩ hcolon

/-- **No key that an element can claim has a colon.** -/
theorem Claimable.colon_notMem {e : Element} {key : String} (h : Claimable e.baseKey key) :
    ':' ∉ key.toList := by
  rcases h with rfl | ⟨n, rfl⟩
  · exact colon_notMem_dashCase _
  · rw [numbered, String.toList_append, String.toList_append, List.mem_append, List.mem_append]
    rintro ((hbase | hdash) | hnumber)
    · exact colon_notMem_dashCase _ hbase
    · exact absurd hdash (by decide)
    · have hdigits : (toString n).toList = Nat.toDigits 10 n := Nat.toList_repr
      rw [hdigits] at hnumber
      exact absurd (Nat.isDigit_of_mem_toDigits (by omega) le_rfl hnumber) (by decide)

end PageCompiler
