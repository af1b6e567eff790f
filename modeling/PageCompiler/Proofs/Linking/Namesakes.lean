import PageCompiler.Proofs.Linking.Text

/-!
# Batches with repeated names

Several chunks of a batch may have one name. A chunk that names them is held back by the first of
them that is taken, and by no other one: the name is released everywhere at once. So a chunk comes
after one chunk of each name that it names, but not always after all of them.

* `Takes`: a run of rounds, with the chunks that are passed over because they wait.
* `takeReady_takes`: the linker makes such a run, and ends it when all that is left waits.
* `linkOrder_namesakes`: what a chunk comes after. It is all chunks of the names that it names when
  those of a repeated name stand before it and wait for the same.
-/

namespace PageCompiler

/-- A chunk waits for nothing once some chunks are taken: of each name of the batch that it names,
there is one among them. -/
def Free (chunks taken : List Chunk) (c : Chunk) : Prop :=
  ∀ name ∈ c.after, name ∈ chunks.map (·.name) → name ∈ taken.map (·.name)

/-- What a chunk of a batch waits for once some chunks are taken. -/
def waitFor (chunks taken : List Chunk) (c : Chunk) : Waiting :=
  ⟨c, c.after.filter fun name => name ∈ chunks.map (·.name) ∧ name ∉ taken.map (·.name)⟩

/-- A run of rounds on what is left of a batch once some chunks are taken: each round takes the first
chunk that waits for nothing. -/
inductive Takes (chunks : List Chunk) : List Chunk → List Chunk → List Chunk → List Chunk → Prop
  | stop {taken rest : List Chunk} : Takes chunks taken rest [] rest
  | take {taken passed behind order left : List Chunk} {c : Chunk}
      (waits : ∀ d ∈ passed, ¬ Free chunks taken d) (free : Free chunks taken c)
      (takes : Takes chunks (taken ++ [c]) (passed ++ behind) order left) :
      Takes chunks taken (passed ++ c :: behind) (c :: order) left

/-! ## One round -/

section Round

variable {chunks taken taken' rest : List Chunk} {c : Chunk}

theorem Free.mono (h : Free chunks taken c) (htaken : taken ⊆ taken') : Free chunks taken' c :=
  fun name hname hin => List.map_subset _ htaken (h name hname hin)

theorem isReady_waitFor (chunks taken : List Chunk) (c : Chunk) :
    (waitFor chunks taken c).isReady = true ↔ Free chunks taken c := by
  simp only [Waiting.isReady, waitFor, List.isEmpty_iff, List.filter_eq_nil_iff, decide_eq_true_eq,
    not_and, not_not, Free]

theorem waitingBatch_eq_map (chunks : List Chunk) :
    waitingBatch chunks = chunks.map (waitFor chunks []) := by
  have hall : chunks.filter (fun c => c.name ∉ ([] : List Chunk).map (·.name)) = chunks :=
    List.filter_eq_self.2 (by simp)
  rw [waitingBatch_eq, waitingAfter, hall]
  rfl

/-- Releasing the name of a chunk leaves what is waited for once it is taken. -/
theorem release_waitFor (chunks taken : List Chunk) (c d : Chunk) :
    (waitFor chunks taken d).release c.name = waitFor chunks (taken ++ [c]) d := by
  simp only [Waiting.release, waitFor, List.filter_filter]
  congr 2
  funext name
  rw [Bool.eq_iff_iff]
  simp
  tauto

/-- A round without a chunk that waits for nothing ends the run. -/
theorem takeReady_of_waits (h : ∀ d ∈ rest, ¬ Free chunks taken d) (rounds : ℕ) :
    takeReady rounds (rest.map (waitFor chunks taken)) = ([], rest.map (waitFor chunks taken)) := by
  cases rounds with
  | zero => rfl
  | succ rounds =>
    have hdrop : (rest.map (waitFor chunks taken)).dropWhile (!·.isReady) = [] := by
      simp only [List.dropWhile_eq_nil_iff, List.forall_mem_map, Bool.not_eq_true',
        ← Bool.not_eq_true, isReady_waitFor]
      exact h
    rw [takeReady, hdrop]

/-- **A round takes the first chunk that waits for nothing.** -/
theorem takeReady_of_free {passed behind : List Chunk} (hpassed : ∀ d ∈ passed, ¬ Free chunks taken d)
    (hc : Free chunks taken c) (rounds : ℕ) :
    takeReady (rounds + 1) ((passed ++ c :: behind).map (waitFor chunks taken)) =
      let rs := takeReady rounds ((passed ++ behind).map (waitFor chunks (taken ++ [c])))
      (c :: rs.1, rs.2) := by
  have hskip : ∀ w ∈ passed.map (waitFor chunks taken), (!w.isReady) = true := by
    simp only [List.forall_mem_map, Bool.not_eq_true', ← Bool.not_eq_true, isReady_waitFor]
    exact hpassed
  have hready : ¬ (!(waitFor chunks taken c).isReady) = true := by
    simpa using (isReady_waitFor chunks taken c).2 hc
  rw [takeReady, List.map_append, List.map_cons, List.dropWhile_append_of_pos hskip,
    List.dropWhile_cons_of_neg (p := fun w : Waiting => !w.isReady) hready]
  dsimp only
  rw [List.takeWhile_append_of_pos hskip,
    List.takeWhile_cons_of_neg (p := fun w : Waiting => !w.isReady) hready, List.append_nil,
    ← List.map_append, List.map_map]
  have hrelease : Waiting.release (waitFor chunks taken c).chunk.name ∘ waitFor chunks taken
      = waitFor chunks (taken ++ [c]) := funext (release_waitFor chunks taken c)
  rw [hrelease]
  rfl

/-- A list has a first chunk that waits for nothing, or all of it waits. -/
theorem free_cases (chunks taken rest : List Chunk) :
    (∀ d ∈ rest, ¬ Free chunks taken d) ∨ ∃ passed c behind, rest = passed ++ c :: behind ∧
      (∀ d ∈ passed, ¬ Free chunks taken d) ∧ Free chunks taken c := by
  induction rest with
  | nil => exact Or.inl fun d hd => by cases hd
  | cons c rest ih =>
    by_cases hc : Free chunks taken c
    · exact Or.inr ⟨[], c, rest, rfl, fun d hd => (by cases hd), hc⟩
    · rcases ih with hall | ⟨passed, d, behind, rfl, hpassed, hd⟩
      · exact Or.inl (List.forall_mem_cons.2 ⟨hc, hall⟩)
      · exact Or.inr ⟨c :: passed, d, behind, rfl, List.forall_mem_cons.2 ⟨hc, hpassed⟩, hd⟩

end Round

/-! ## A run of rounds -/

section Run

variable {chunks taken rest order left : List Chunk}

/-- **What the linker does.** With enough rounds it goes on until all that is left waits. -/
theorem takeReady_takes (chunks : List Chunk) :
    ∀ (rounds : ℕ) (taken rest : List Chunk), rest.length ≤ rounds → ∃ order left,
      takeReady rounds (rest.map (waitFor chunks taken))
          = (order, left.map (waitFor chunks (taken ++ order))) ∧
        Takes chunks taken rest order left ∧ ∀ d ∈ left, ¬ Free chunks (taken ++ order) d := by
  intro rounds
  induction rounds with
  | zero =>
    intro taken rest hlength
    obtain rfl := List.eq_nil_of_length_eq_zero (Nat.le_zero.1 hlength)
    exact ⟨[], [], rfl, .stop, fun d hd => by cases hd⟩
  | succ rounds ih =>
    intro taken rest hlength
    rcases free_cases chunks taken rest with hall | ⟨passed, c, behind, rfl, hpassed, hc⟩
    · refine ⟨[], rest, ?_, .stop, ?_⟩
      · rw [takeReady_of_waits hall, List.append_nil]
      · rwa [List.append_nil]
    · have hshorter : (passed ++ behind).length ≤ rounds := by
        simp only [List.length_append, List.length_cons] at hlength ⊢
        omega
      obtain ⟨order, left, hrun, htakes, hleft⟩ := ih (taken ++ [c]) (passed ++ behind) hshorter
      rw [List.append_assoc, List.singleton_append] at hrun hleft
      refine ⟨c :: order, left, ?_, .take hpassed hc htakes, hleft⟩
      rw [takeReady_of_free hpassed hc, hrun]

/-- What is taken and what is left is the whole rest. -/
theorem Takes.perm (h : Takes chunks taken rest order left) : (order ++ left).Perm rest := by
  induction h with
  | stop => exact .refl _
  | @take taken passed behind order left c _ _ _ ih =>
    exact (ih.cons c).trans List.perm_middle.symm

/-- What is left keeps its order. -/
theorem Takes.sublist (h : Takes chunks taken rest order left) : left.Sublist rest := by
  induction h with
  | stop => exact .refl _
  | take _ _ _ ih => exact ih.trans (List.Sublist.append_left (List.sublist_cons_self _ _) _)

/-- The round in which a chunk is taken. -/
theorem Takes.round {before behind : List Chunk} {c : Chunk}
    (h : Takes chunks taken rest (before ++ c :: behind) left) :
    ∃ passed beyond, Takes chunks taken rest before (passed ++ c :: beyond) ∧
      (∀ d ∈ passed, ¬ Free chunks (taken ++ before) d) ∧ Free chunks (taken ++ before) c ∧
      Takes chunks (taken ++ before ++ [c]) (passed ++ beyond) behind left := by
  induction before generalizing taken rest with
  | nil =>
    cases h with
    | @take _ passed beyond _ _ _ waits free takes =>
      refine ⟨passed, beyond, .stop, ?_, ?_, ?_⟩
      · rwa [List.append_nil]
      · rwa [List.append_nil]
      · rwa [List.append_nil]
  | cons b before ih =>
    cases h with
    | take waits free takes =>
      obtain ⟨passed, beyond, hbefore, hpassed, hc, hbehind⟩ := ih takes
      have hassoc : taken ++ [b] ++ before = taken ++ b :: before := by simp
      rw [hassoc] at hpassed hc hbehind
      exact ⟨passed, beyond, .take waits free hbefore, hpassed, hc, hbehind⟩

end Run

/-! ## Repeated names -/

/-- All chunks of a name wait for the same chunks of the batch. -/
def InStep (chunks : List Chunk) (name : String) : Prop :=
  ∀ d ∈ chunks, ∀ e ∈ chunks, d.name = name → e.name = name →
    ∀ other ∈ d.after, other ∈ chunks.map (·.name) → other ∈ e.after

/-- The names that chunks wait for are names of one chunk each, or of several that wait for the same
and all stand before the chunk that waits for them. -/
def Gathered (chunks : List Chunk) : Prop :=
  ∀ before c behind, chunks = before ++ c :: behind → ∀ name ∈ c.after,
    (chunks.map (·.name)).count name ≤ 1 ∨
      InStep chunks name ∧ ∀ d ∈ c :: behind, d.name ≠ name

section Gathered

variable {chunks before behind : List Chunk} {c : Chunk}

theorem linkOrder_takes (h : (linkOrder chunks).2 = []) :
    Takes chunks [] chunks (linkOrder chunks).1 [] := by
  obtain ⟨order, left, hrun, htakes, -⟩ := takeReady_takes chunks chunks.length [] chunks le_rfl
  rw [← waitingBatch_eq_map] at hrun
  rw [linkOrder, hrun] at h ⊢
  obtain rfl := List.map_eq_nil_iff.1 h
  exact htakes

/-- The place of a chunk in the batch: a chunk that is taken later stands behind it, or waits when it
is taken. -/
theorem Takes.place (h : Takes chunks [] chunks (before ++ c :: behind) []) :
    ∃ first rest, chunks = first ++ c :: rest ∧ ∀ d ∈ behind, d ∈ rest ∨ ¬ Free chunks before d := by
  obtain ⟨passed, beyond, hbefore, hpassed, -, hbehind⟩ := h.round
  have hlater : behind ⊆ passed ++ beyond := by simpa using hbehind.perm.subset
  obtain ⟨first, rest, hchunks, -, hrest⟩ := List.append_sublist_iff.1 hbefore.sublist
  obtain ⟨near, far, rfl, hc, hbeyond⟩ := List.cons_sublist_iff.1 hrest
  obtain ⟨second, third, rfl⟩ := List.append_of_mem hc
  refine ⟨first ++ second, third ++ far, by simpa using hchunks, fun d hd => ?_⟩
  rcases List.mem_append.1 (hlater hd) with hd | hd
  · exact Or.inr (hpassed d hd)
  · exact Or.inl (List.mem_append_right _ (hbeyond.subset hd))

/-- A chunk that is taken waits for nothing then. -/
theorem Takes.free (h : Takes chunks [] chunks (before ++ c :: behind) []) :
    Free chunks before c := by
  obtain ⟨-, -, -, -, hc, -⟩ := h.round
  exact hc

/-- A chunk that is taken before another one waits for nothing then. -/
theorem Takes.free_of_mem (h : Takes chunks [] chunks (before ++ c :: behind) []) {d : Chunk}
    (hd : d ∈ before) : Free chunks before d := by
  obtain ⟨first, second, rfl⟩ := List.append_of_mem hd
  rw [List.append_assoc, List.cons_append] at h
  exact h.free.mono (List.subset_append_left _ _)

/-- **In a gathered batch** a chunk comes after all chunks of the names that it names. -/
theorem Takes.notMem_after (hgathered : Gathered chunks)
    (h : Takes chunks [] chunks (before ++ c :: behind) []) {d : Chunk} (hd : d ∈ c :: behind) :
    d.name ∉ c.after := by
  intro hname
  have hperm : (before ++ c :: behind).Perm chunks := by simpa using h.perm
  have hdchunks : d ∈ chunks := hperm.subset (List.mem_append_right _ hd)
  -- the chunk of the name that has released `c`
  obtain ⟨e, he, hed⟩ := List.mem_map.1 (h.free d.name hname (List.mem_map_of_mem hdchunks))
  have hechunks : e ∈ chunks := hperm.subset (List.mem_append_left _ he)
  obtain ⟨first, rest, hchunks, hplace⟩ := h.place
  rcases hgathered first c rest hchunks d.name hname with hcount | ⟨hstep, hnone⟩
  · have hleft : 0 < (before.map (·.name)).count d.name :=
      List.count_pos_iff.2 (List.mem_map.2 ⟨e, he, hed⟩)
    have hright : 0 < ((c :: behind).map (·.name)).count d.name :=
      List.count_pos_iff.2 (List.mem_map.2 ⟨d, hd, rfl⟩)
    rw [← (hperm.map (·.name)).count_eq, List.map_append, List.count_append] at hcount
    omega
  · have hbehind : d ∈ behind := (List.mem_cons.1 hd).resolve_left fun heq =>
      hnone c List.mem_cons_self (heq ▸ rfl)
    rcases hplace d hbehind with hrest | hwaits
    · exact hnone d (List.mem_cons_of_mem _ hrest) rfl
    -- `d` waits for the same as `e`, which did not wait any longer
    · refine hwaits fun other hother hin => ?_
      exact h.free_of_mem he other (hstep d hdchunks e hechunks rfl hed other hother hin) hin

/-- **What a chunk comes after** in a batch that is taken as a whole, whatever names are repeated. It
comes after one chunk of each name that it names. Another chunk of such a name can come later only
if it stands behind it in the batch, or waits when the chunk is taken. When the batch is gathered, a
chunk comes after all chunks of the names that it names. -/
theorem linkOrder_namesakes (canvas : Canvas) (chunks : List Chunk)
    (h : (linkOrder chunks).2 = []) :
    linkChunks canvas allPrinters chunks
        = .ok ("\n".intercalate (endedTexts canvas (linkOrder chunks).1)) ∧
      (linkOrder chunks).1.Perm chunks ∧
      ∀ before c behind, (linkOrder chunks).1 = before ++ c :: behind →
        (∀ name ∈ c.after, name ∈ chunks.map (·.name) → name ∈ before.map (·.name)) ∧
        (∀ d ∈ behind, d.name ∈ c.after →
          [c, d].Sublist chunks ∨
            ∃ name ∈ d.after, name ∈ chunks.map (·.name) ∧ name ∉ before.map (·.name)) ∧
        (Gathered chunks → ∀ d ∈ c :: behind, d.name ∉ c.after) := by
  have htakes := linkOrder_takes h
  refine ⟨by rw [linkChunks_eq, h]; rfl, by simpa using htakes.perm, fun before c behind heq => ?_⟩
  rw [heq] at htakes
  refine ⟨htakes.free, fun d hd _ => ?_, fun hgathered d hd => htakes.notMem_after hgathered hd⟩
  obtain ⟨first, rest, hchunks, hplace⟩ := htakes.place
  refine (hplace d hd).imp (fun hrest => ?_) fun hwaits => by simpa [Free] using hwaits
  rw [hchunks]
  exact ((List.singleton_sublist.2 hrest).cons_cons c).trans (List.sublist_append_right _ _)

/-- Two sheets of one name, and a chunk that stands behind them and waits for both. -/
def twinBatch : List Chunk := [
  { name := "card", kind := .text, fileType := "css", content := .text "first" },
  { name := "card", kind := .text, fileType := "css", content := .text "second" },
  { name := "page", kind := .text, fileType := "css", content := .text "page", after := ["card"] }]

theorem gathered_twinBatch : Gathered twinBatch := by
  have hstep : InStep twinBatch "card" := by
    intro d hd e _ hname _ other hother
    simp only [twinBatch, List.mem_cons, List.not_mem_nil, or_false] at hd
    rcases hd with rfl | rfl | rfl
    · cases hother
    · cases hother
    · simp at hname
  intro before c behind heq name hname
  rcases before with _ | ⟨_, _ | ⟨_, _ | ⟨_, before⟩⟩⟩
  · cases heq
    cases hname
  · cases heq
    cases hname
  · cases heq
    obtain rfl := List.mem_singleton.1 hname
    exact Or.inr ⟨hstep, by simp⟩
  · cases before <;> cases heq

theorem twinBatch_after_both : (linkOrder twinBatch).2 = [] ∧ Gathered twinBatch ∧
    linkChunks {} allPrinters twinBatch = .ok "first\n\nsecond\n\npage\n" ∧
    ∀ before c behind, (linkOrder twinBatch).1 = before ++ c :: behind →
      ∀ d ∈ c :: behind, d.name ∉ c.after := by
  have hleft : (linkOrder twinBatch).2 = [] := List.isEmpty_iff.1 (by decide +kernel)
  obtain ⟨htext, -, hafter⟩ := linkOrder_namesakes {} twinBatch hleft
  refine ⟨hleft, gathered_twinBatch, ?_, fun before c behind heq =>
    (hafter before c behind heq).2.2 gathered_twinBatch⟩
  exact htext.trans (congrArg Except.ok (by decide +kernel))

/-- The same chunks with the one that waits in front. -/
def earlyBatch : List Chunk := [
  { name := "page", kind := .text, fileType := "css", content := .text "page", after := ["card"] },
  { name := "card", kind := .text, fileType := "css", content := .text "first" },
  { name := "card", kind := .text, fileType := "css", content := .text "second" }]

/-- It waits for the first sheet only. -/
theorem earlyBatch_between : (linkOrder earlyBatch).2 = [] ∧
    linkChunks {} allPrinters earlyBatch = .ok "first\n\npage\n\nsecond\n" ∧
    ¬ ∀ before c behind, (linkOrder earlyBatch).1 = before ++ c :: behind →
      ∀ d ∈ c :: behind, d.name ∉ c.after := by
  have hleft : (linkOrder earlyBatch).2 = [] := List.isEmpty_iff.1 (by decide +kernel)
  have horder : (linkOrder earlyBatch).1 = [earlyBatch[1], earlyBatch[0], earlyBatch[2]] := by rfl
  have htext : "\n".intercalate (endedTexts {} (linkOrder earlyBatch).1)
      = "first\n\npage\n\nsecond\n" := by decide +kernel
  refine ⟨hleft, by rw [linkChunks_eq, hleft, htext]; rfl, fun hall => ?_⟩
  rw [horder] at hall
  exact hall [earlyBatch[1]] earlyBatch[0] [earlyBatch[2]] rfl earlyBatch[2]
    (List.mem_cons_of_mem _ List.mem_cons_self) List.mem_cons_self

end Gathered

end PageCompiler
