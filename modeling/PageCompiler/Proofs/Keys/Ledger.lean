import PageCompiler.Page.Slot
import PageCompiler.Proofs.Search
import PageCompiler.Resolve.Keys

/-!
# Claiming keys from a ledger

A claim answers a key that was not taken and takes it, whatever the ledger holds: the base itself,
or the base with a number behind it. The search for a number is limited by the number of taken
keys, and that is enough, since the numbers give different keys.

* `KeyLedger.claim_notMem` and `KeyLedger.taken_claim`: the claimed key is new, and taken then.
* `Claimed`: the keys that a list of elements gets, claim by claim. They are pairwise distinct
  and none of them was taken before (`Claimed.nodup_keys`, `Claimed.notMem_taken`).
-/

namespace PageCompiler

/-! ## Numbered keys -/

theorem numbered_injective (base : String) : Function.Injective (numbered base) := by
  intro m n h
  exact Nat.repr_injective ((String.append_right_inj _).1 h)

/-- The numbers of a base are a row of names. -/
theorem firstFree_eq (taken : List String) (base : String) (fuel n : ℕ) :
    firstFree taken base fuel n = searchFree (numbered base) taken fuel n := by
  induction fuel generalizing n with
  | zero => rfl
  | succ fuel ih => rw [firstFree, searchFree, ih]

/-! ## Claims -/

/-- A key that a claim on a base can answer. -/
def Claimable (base key : String) : Prop := key = base ∨ ∃ n, key = numbered base n

namespace KeyLedger

/-- **A claimed key was not taken.** -/
theorem claim_notMem (l : KeyLedger) (base : String) : (l.claim base).1 ∉ l.taken := by
  rw [claim]
  split
  · rename_i h
    simp only [Bool.and_eq_true, Bool.not_eq_true', List.contains_eq_mem, decide_eq_false_iff_not]
      at h
    exact h.2
  · rw [firstFree_eq]
    exact name_searchFree_notMem (numbered_injective base) _ _

/-- A claimed key is taken, and nothing else is. -/
theorem taken_claim (l : KeyLedger) (base : String) :
    (l.claim base).2.taken = (l.claim base).1 :: l.taken := by
  rw [claim]
  split <;> rfl

theorem claimable_claim (l : KeyLedger) (base : String) : Claimable base (l.claim base).1 := by
  rw [claim]
  split
  · exact Or.inl rfl
  · exact Or.inr ⟨_, rfl⟩

theorem taken_count (l : KeyLedger) (base : String) : (l.count base).taken = l.taken := rfl

theorem taken_seeded (keys : List String) : (seeded keys).taken = keys := rfl

end KeyLedger

theorem taken_countElements (l : KeyLedger) (elements : List Element) :
    (countElements l elements).taken = l.taken := by
  induction elements generalizing l with
  | nil => rfl
  | cons e rest ih =>
    rw [countElements, List.foldl_cons]
    exact (ih (l.count e.baseKey)).trans (l.taken_count _)

/-! ## Elements with claimed keys -/

/-- Two elements of one type and name, which stand for the same component if they stand for
one. -/
structure Element.SameKind (e e' : Element) : Prop where
  elementType : e'.elementType = e.elementType
  name : e'.name = e.name
  semanticType : e'.semanticType = e.semanticType
  dependency : e'.dependency = e.dependency

/-- The second element is the first one but for keys, as far as types and names go. -/
structure Element.Alike (e e' : Element) : Prop extends e.SameKind e' where
  inside : List.Forall₂ Element.SameKind (nodesElements e.children) (nodesElements e'.children)
  slot : ∀ own, (nodesFillSlot own e'.children).isSome = (nodesFillSlot own e.children).isSome

theorem Element.SameKind.refl (e : Element) : e.SameKind e := ⟨rfl, rfl, rfl, rfl⟩

theorem Element.Alike.refl (e : Element) : e.Alike e :=
  ⟨.refl e, List.forall₂_same.2 fun x _ => .refl x, fun _ => rfl⟩

/-- Claiming a key for each of the first elements in turn leads from the first ledger to the
second one, and the second elements are the first ones with these keys. -/
inductive Claimed : KeyLedger → List Element → List Element → KeyLedger → Prop
  | nil (l : KeyLedger) : Claimed l [] [] l
  | cons {l l' : KeyLedger} {e e' : Element} {es es' : List Element}
      (key : e'.key = (l.claim e.baseKey).1) (alike : e.Alike e')
      (rest : Claimed (l.claim e.baseKey).2 es es' l') : Claimed l (e :: es) (e' :: es') l'

namespace Claimed

variable {l l' l'' : KeyLedger} {es es' fs fs' : List Element}

theorem append (h : Claimed l es es' l') (h' : Claimed l' fs fs' l'') :
    Claimed l (es ++ fs) (es' ++ fs') l'' := by
  induction h with
  | nil => exact h'
  | cons key alike _ ih => exact .cons key alike (ih h')

/-- What is taken in the end was taken before or is a claimed key. -/
theorem mem_taken (h : Claimed l es es' l') {key : String} :
    key ∈ l'.taken ↔ key ∈ es'.map (·.key) ∨ key ∈ l.taken := by
  induction h with
  | nil => simp
  | cons hkey _ _ ih =>
    rw [ih, KeyLedger.taken_claim]
    simp only [List.map_cons, List.mem_cons, hkey]
    tauto

/-- **Claimed keys were not taken.** -/
theorem notMem_taken (h : Claimed l es es' l') {key : String} (hkey : key ∈ es'.map (·.key)) :
    key ∉ l.taken := by
  induction h with
  | nil => simp at hkey
  | cons hclaim _ _ ih =>
    rw [List.map_cons, List.mem_cons] at hkey
    rcases hkey with rfl | hrest
    · rw [hclaim]
      exact KeyLedger.claim_notMem _ _
    · have hnot := ih hrest
      rw [KeyLedger.taken_claim] at hnot
      exact fun hmem => hnot (List.mem_cons_of_mem _ hmem)

/-- **Claimed keys are pairwise distinct.** -/
theorem nodup_keys (h : Claimed l es es' l') : (es'.map (·.key)).Nodup := by
  induction h with
  | nil => exact List.nodup_nil
  | cons hclaim _ hrest ih =>
    rw [List.map_cons, List.nodup_cons]
    refine ⟨fun hmem => hrest.notMem_taken hmem ?_, ih⟩
    rw [KeyLedger.taken_claim, hclaim]
    exact List.mem_cons_self

theorem forall₂ (h : Claimed l es es' l') :
    List.Forall₂ (fun e e' => e.Alike e' ∧ Claimable e.baseKey e'.key) es es' := by
  induction h with
  | nil => exact .nil
  | cons hclaim alike _ ih =>
    refine .cons ⟨alike, ?_⟩ ih
    rw [hclaim]
    exact KeyLedger.claimable_claim _ _

theorem sameKind (h : Claimed l es es' l') : List.Forall₂ Element.SameKind es es' :=
  h.forall₂.imp fun _ _ h => h.1.toSameKind

end Claimed

end PageCompiler
