import PageCompiler.Proofs.Keys.Ledger

/-!
# The first free key

A base offers a row of keys: itself, then itself with the numbers from one upwards. The number that
a ledger keeps for a base is a shortcut into this row. Claims on other bases, seeding and reserving
take keys of the row without moving the number, but all keys before the number are taken
(`KeyLedger.UsedUp`), so a claim never passes over a free one.

* `KeyLedger.UsedUp.claim_eq`: what a claim does to a ledger, in one equation.
* `KeyLedger.Reached.claim_least`: from a ledger that came about by seeding, counting, reserving and
  claiming, a claim answers the first key of the row that is free, and takes that key only.
* `Claimed.firstFree`: each element of a walk gets the first key of its base that no element before
  it has.
-/

namespace PageCompiler

/-! ## The keys of a base -/

/-- The keys that a base offers, in the order in which they are tried. -/
def offered (base : String) : ℕ → String
  | 0 => base
  | n + 1 => numbered base (n + 1)

theorem offered_of_pos {base : String} {n : ℕ} (h : 0 < n) : offered base n = numbered base n := by
  obtain ⟨n, rfl⟩ := Nat.exists_eq_add_of_lt h
  rw [Nat.zero_add]
  rfl

theorem numbered_ne (base : String) (n : ℕ) : numbered base n ≠ base := by
  intro h
  have hlength := congrArg String.length h
  rw [numbered, String.length_append, String.length_append] at hlength
  have hdash : "-".length = 1 := rfl
  omega

theorem offered_injective (base : String) : Function.Injective (offered base) := by
  rintro (_ | m) (_ | n) h
  · rfl
  · exact absurd h.symm (numbered_ne base _)
  · exact absurd h (numbered_ne base _)
  · exact numbered_injective base h

/-- The number of the first key of a base that is not among the taken ones. -/
def IsFirstFree (taken : List String) (base : String) (n : ℕ) : Prop :=
  IsLeast {i | offered base i ∉ taken} n

theorem IsFirstFree.of_forall_lt {taken : List String} {base : String} {n : ℕ}
    (hfree : offered base n ∉ taken) (htaken : ∀ i < n, offered base i ∈ taken) :
    IsFirstFree taken base n := by
  refine ⟨hfree, fun i hi => ?_⟩
  by_contra hlt
  exact hi (htaken i (not_le.1 hlt))

theorem IsFirstFree.congr {taken taken' : List String} {base : String} {n : ℕ}
    (h : IsFirstFree taken base n) (heq : ∀ key, key ∈ taken ↔ key ∈ taken') :
    IsFirstFree taken' base n := by
  simpa only [IsFirstFree, heq] using h

theorem IsFirstFree.mem_of_lt {taken : List String} {base : String} {n i : ℕ}
    (h : IsFirstFree taken base n) (hi : i < n) : offered base i ∈ taken := by
  by_contra hfree
  exact absurd (h.2 hfree) (not_le.2 hi)

/-- As many tries as there are taken keys are enough. -/
theorem IsFirstFree.le_length {taken : List String} {base : String} {n : ℕ}
    (h : IsFirstFree taken base n) : n ≤ taken.length := by
  obtain ⟨m, -, hm, hfree⟩ := exists_notMem_of_injective (offered_injective base) taken 0
  rw [Nat.zero_add] at hm
  exact (h.2 hfree).trans hm

/-! ## Ledgers -/

namespace KeyLedger

variable {l : KeyLedger} {base : String}

theorem use_insert (uses : Dict KeyUse) (taken : List String) (base : String) (u : KeyUse)
    (other : String) : (KeyLedger.mk (Dict.insert uses base u) taken).use other =
      if other = base then u else (KeyLedger.mk uses taken).use other := by
  unfold use
  split
  · rename_i h
    rw [h, Dict.get?_insert_self, Option.getD_some]
  · rename_i h
    rw [Dict.get?_insert_of_ne _ _ h]

/-- The keys of each base up to the number that comes next are taken. -/
def UsedUp (l : KeyLedger) : Prop := ∀ base, ∀ i < (l.use base).next, offered base i ∈ l.taken

/-- A ledger stays used up when it takes more keys and, for one base, keeps a number up to which the
keys are taken. -/
theorem UsedUp.insert (h : l.UsedUp) {u : KeyUse} {taken : List String} (hsub : l.taken ⊆ taken)
    (hu : ∀ i < u.next, offered base i ∈ taken) : UsedUp ⟨Dict.insert l.uses base u, taken⟩ := by
  intro other i hi
  rw [use_insert] at hi
  split at hi
  · rename_i hother
    exact hother ▸ hu i hi
  · exact hsub (h other i hi)

theorem usedUp_new : UsedUp {} := fun _ _ hi => absurd hi (Nat.not_lt_zero _)

theorem usedUp_seeded (keys : List String) : (seeded keys).UsedUp := by
  suffices h : ∀ (some : List String) (uses : Dict KeyUse), some ⊆ keys → UsedUp ⟨uses, keys⟩ →
      UsedUp ⟨some.foldl (fun uses key => Dict.insert uses key ⟨1, 1⟩) uses, keys⟩ from
    h keys [] (List.Subset.refl _) fun _ _ hi => absurd hi (Nat.not_lt_zero _)
  intro some
  induction some with
  | nil => exact fun _ _ h => h
  | cons key rest ih =>
    intro uses hsub h
    rw [List.cons_subset] at hsub
    refine ih _ hsub.2 (h.insert (List.Subset.refl _) fun i hi => ?_)
    rw [Nat.lt_one_iff.1 hi]
    exact hsub.1

theorem UsedUp.count (h : l.UsedUp) (base : String) : (l.count base).UsedUp :=
  h.insert (List.Subset.refl _) (h base)

theorem UsedUp.reserve (h : l.UsedUp) (key : String) : (l.reserve key).UsedUp :=
  h.insert (List.subset_cons_self _ _) fun i hi => by
    rw [Nat.lt_one_iff.1 hi]
    exact List.mem_cons_self

/-- **A claim takes the first free key,** and the number that comes next is the one behind it. -/
theorem UsedUp.claim_eq (h : l.UsedUp) (base : String) : ∃ n, IsFirstFree l.taken base n ∧
    l.claim base = (offered base n,
      ⟨Dict.insert l.uses base { l.use base with next := n + 1 }, offered base n :: l.taken⟩) := by
  rw [claim]
  split
  · rename_i hnew
    simp only [Bool.and_eq_true, Bool.not_eq_true', List.contains_eq_mem, decide_eq_true_eq,
      decide_eq_false_iff_not] at hnew
    exact ⟨0, .of_forall_lt hnew.2 fun i hi => absurd hi (Nat.not_lt_zero i), rfl⟩
  · rename_i hold
    have hbase : base ∈ l.taken := by
      rcases Nat.eq_zero_or_pos (l.use base).next with hzero | hpos
      · simpa [hzero] using hold
      · exact h base 0 hpos
    set start := max (l.use base).next 1 with hstart
    have hfree := name_searchFree_notMem (numbered_injective base) l.taken start
    have hle := le_searchFree (numbered base) l.taken l.taken.length start
    rw [firstFree_eq]
    set n := searchFree (numbered base) l.taken l.taken.length start
    have hpos : 0 < n := by omega
    refine ⟨n, .of_forall_lt (offered_of_pos hpos ▸ hfree) fun i hi => ?_, by
      rw [offered_of_pos hpos]⟩
    -- below the number kept for the base by the invariant, from there on by the search
    rcases Nat.eq_zero_or_pos i with rfl | hi'
    · exact hbase
    · by_cases hnext : i < (l.use base).next
      · exact h base i hnext
      · rw [offered_of_pos hi']
        exact name_mem_of_lt_searchFree (by omega) hi

theorem UsedUp.claim (h : l.UsedUp) (base : String) : (l.claim base).2.UsedUp := by
  obtain ⟨n, hn, heq⟩ := h.claim_eq base
  rw [heq]
  refine h.insert (List.subset_cons_self _ _) fun i hi => ?_
  rcases eq_or_lt_of_le (Nat.lt_succ_iff.1 hi) with rfl | hi
  · exact List.mem_cons_self
  · exact List.mem_cons_of_mem _ (hn.mem_of_lt hi)

/-- The ledgers that come about from an empty or a seeded one, each with the keys that were seeded,
reserved or claimed on the way, the latest first. -/
inductive Reached : KeyLedger → List String → Prop
  | new : Reached {} []
  | seeded (keys : List String) : Reached (.seeded keys) keys
  | count {l : KeyLedger} {given : List String} (base : String) (before : Reached l given) :
      Reached (l.count base) given
  | reserve {l : KeyLedger} {given : List String} (key : String) (before : Reached l given) :
      Reached (l.reserve key) (key :: given)
  | claim {l : KeyLedger} {given : List String} (base : String) (before : Reached l given) :
      Reached (l.claim base).2 ((l.claim base).1 :: given)

namespace Reached

variable {given : List String}

theorem usedUp (h : l.Reached given) : l.UsedUp := by
  induction h with
  | new => exact usedUp_new
  | seeded keys => exact usedUp_seeded keys
  | count base _ ih => exact ih.count base
  | reserve key _ ih => exact ih.reserve key
  | claim base _ ih => exact ih.claim base

/-- The taken keys are those that were given away. -/
theorem taken_eq (h : l.Reached given) : l.taken = given := by
  induction h with
  | new => rfl
  | seeded keys => rfl
  | count _ _ ih => exact ih
  | reserve key _ ih => exact congrArg (key :: ·) ih
  | claim base _ ih => rw [taken_claim, ih]

theorem countElements (h : l.Reached given) (elements : List Element) :
    (countElements l elements).Reached given := by
  induction elements generalizing l with
  | nil => exact h
  | cons e rest ih => exact ih (h.count e.baseKey)

/-- **A claim yields the first free key.** Whatever was seeded, reserved, counted and claimed
before, a claim finds the first key of the row of its base that was not given away, after as many
tries as keys were given away at most; it takes that key, and no other. -/
theorem claim_least (h : l.Reached given) (base : String) :
    ∃ n ≤ given.length, IsLeast {i | offered base i ∉ given} n ∧
      (l.claim base).1 = offered base n ∧ (l.claim base).1 ∉ given ∧
      l.taken = given ∧ (l.claim base).2.taken = (l.claim base).1 :: given := by
  obtain ⟨n, hn, heq⟩ := h.usedUp.claim_eq base
  rw [h.taken_eq] at hn heq
  rw [heq]
  exact ⟨n, hn.le_length, hn, rfl, hn.1, h.taken_eq, rfl⟩

end Reached

/-- A ledger that skipped a seeded number, and in which a reservation then set the number of the
base back. -/
def hintLedger : KeyLedger := ((seeded ["hint", "hint-1"]).claim "hint").2.reserve "hint"

theorem hintLedger_claim_least : hintLedger.Reached ["hint", "hint-2", "hint", "hint-1"] ∧
    (hintLedger.use "hint").next = 1 ∧ (hintLedger.claim "hint").1 = "hint-3" ∧
    "hint-3" ∉ ["hint", "hint-2", "hint", "hint-1"] ∧
    (hintLedger.claim "hint").2.taken = "hint-3" :: ["hint", "hint-2", "hint", "hint-1"] := by
  have hclaimed : ((seeded ["hint", "hint-1"]).claim "hint").1 = "hint-2" := by decide +kernel
  have h : hintLedger.Reached ["hint", "hint-2", "hint", "hint-1"] :=
    hclaimed ▸ ((Reached.seeded ["hint", "hint-1"]).claim "hint").reserve "hint"
  have hkey : (hintLedger.claim "hint").1 = "hint-3" := by decide +kernel
  obtain ⟨n, -, -, -, hnew, -, htaken⟩ := h.claim_least "hint"
  exact ⟨h, by decide +kernel, hkey, hkey ▸ hnew, hkey ▸ htaken⟩

end KeyLedger

/-! ## Walks -/

/-- **Each element gets the first key of its base that is free:** not taken before the walk, and not
the key of an element before it. -/
theorem Claimed.firstFree {l l' : KeyLedger} {es es' : List Element} (h : Claimed l es es' l')
    (hl : l.UsedUp) {i : ℕ} {e e' : Element} (he : es[i]? = some e) (he' : es'[i]? = some e') :
    ∃ n, IsFirstFree ((es'.take i).map (·.key) ++ l.taken) e.baseKey n ∧
      e'.key = offered e.baseKey n := by
  induction h generalizing i with
  | nil => cases he
  | @cons l _ x x' _ es' hkey _ _ ih =>
    obtain ⟨n, hn, heq⟩ := hl.claim_eq x.baseKey
    cases i with
    | zero =>
      cases he
      cases he'
      exact ⟨n, hn, by rw [hkey, heq]⟩
    | succ i =>
      obtain ⟨m, hm, hkey'⟩ := ih (hl.claim x.baseKey) he he'
      refine ⟨m, hm.congr fun key => ?_, hkey'⟩
      rw [KeyLedger.taken_claim, ← hkey, List.take_succ_cons, List.map_cons]
      simp only [List.mem_append, List.mem_cons]
      tauto

end PageCompiler
