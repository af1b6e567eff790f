import PageCompiler.Generator
import PageCompiler.Proofs.Dict
import PageCompiler.Proofs.Linking.Namesakes
import PageCompiler.Proofs.Text.Parts

/-!
# From chunks to files

A text that stands in a chunk stands in a file in the end, unless the chunks of its type of file wait
for one another.

* `linkOrder_left`: a batch is taken as a whole when what is waited for waits for nothing.
* `get?_groupByFileType`: the chunks of a type of file.
* `exists_outputFile`: the file that a chunk with a text gets into.
-/

namespace PageCompiler

variable {chunks : List Chunk} {chunk : Chunk} {canvas : Canvas}

/-- The chunks that others wait for wait for nothing. -/
def Shallow (chunks : List Chunk) : Prop :=
  ∀ c ∈ chunks, ∀ d ∈ chunks, d.name ∈ c.after → d.after = []

theorem Shallow.subset (h : Shallow chunks) {part : List Chunk} (hsub : part ⊆ chunks) :
    Shallow part := fun c hc d hd => h c (hsub hc) d (hsub hd)

/-- A batch in which only one chunk waits, and not for itself. -/
theorem Shallow.of_one {before behind : List Chunk} (h : ∀ d ∈ before ++ behind, d.after = [])
    (hchunk : chunk.name ∉ chunk.after) : Shallow (before ++ chunk :: behind) := by
  intro c hc d hd hname
  rcases List.mem_cons.1 (List.perm_middle.subset hd) with rfl | hd
  · rcases List.mem_cons.1 (List.perm_middle.subset hc) with rfl | hc
    · exact absurd hname hchunk
    · rw [h c hc] at hname
      cases hname
  · exact h d hd

/-- A shallow batch is taken as a whole. -/
theorem linkOrder_left (h : Shallow chunks) : (linkOrder chunks).2 = [] := by
  obtain ⟨order, left, hrun, htakes, hwaits⟩ :=
    takeReady_takes chunks chunks.length [] chunks le_rfl
  rw [← waitingBatch_eq_map] at hrun
  rw [linkOrder, hrun, List.map_eq_nil_iff, List.eq_nil_iff_forall_not_mem]
  intro c hc
  refine hwaits c hc fun name hname hin => ?_
  obtain ⟨d, hd, rfl⟩ := List.mem_map.1 hin
  rcases List.mem_append.1 (htakes.perm.symm.subset hd) with htaken | hleft
  · exact List.mem_map_of_mem htaken
  · -- a chunk that is left waits, so nothing that is left waits for it
    have hfree : d.after = [] := h c (htakes.sublist.subset hc) d hd hname
    exact absurd (fun name hname => by rw [hfree] at hname; cases hname) (hwaits d hleft)

/-- The text of a chunk of a shallow batch stands in the text of the batch. -/
theorem infix_linkChunks (h : Shallow chunks) (hchunk : chunk ∈ chunks)
    (hne : chunk.text canvas ≠ "") {text : String}
    (hlink : linkChunks canvas allPrinters chunks = .ok text) :
    (chunk.text canvas).toList <:+: text.toList := by
  have hleft := linkOrder_left h
  have horder : chunk ∈ (linkOrder chunks).1 := by
    have hperm := (linkOrder_takes hleft).perm
    rw [List.append_nil] at hperm
    exact hperm.mem_iff.2 hchunk
  rw [linkChunks_eq, hleft] at hlink
  cases hlink
  have hended : chunk.text canvas ++ "\n" ∈ endedTexts canvas (linkOrder chunks).1 :=
    List.mem_map_of_mem (List.mem_filter.2 ⟨List.mem_map_of_mem horder, by simpa using hne⟩)
  refine List.IsInfix.trans ?_ (infix_intercalate "\n" hended)
  rw [String.toList_append]
  exact (List.prefix_append _ _).isInfix

/-- The text of a chunk that holds a text. -/
theorem Chunk.text_of_text {s : String} (hkind : chunk.kind = .text)
    (hcontent : chunk.content = .text s) : chunk.text canvas = s := by
  rw [Chunk.text, hkind, hcontent, ChunkContent.print, ChunkContent.printOne, ChunkContent.isEmpty]
  split
  · rename_i hempty
    exact (String.isEmpty_iff.1 hempty).symm
  · rfl

theorem groupByFileType_eq (chunks : List Chunk) : groupByFileType chunks =
    Dict.gather (·.fileType) (fun group chunk => group ++ [chunk]) [] chunks := rfl

/-- **The chunks of a type of file** keep their order. -/
theorem get?_groupByFileType (chunks : List Chunk) (fileType : String) :
    (Dict.get? (groupByFileType chunks) fileType).getD []
      = chunks.filter (·.fileType = fileType) := by
  rw [groupByFileType_eq, Dict.get?_gather, List.foldl_append_eq_append, List.nil_append,
    ← List.flatMap_def, List.flatMap_singleton']
  split
  · rename_i hnone
    rw [hnone]
    rfl
  · rfl

theorem sorted_groupByFileType (chunks : List Chunk) : Dict.Sorted (groupByFileType chunks) := by
  rw [groupByFileType_eq]
  exact Dict.sorted_gather ..

/-- A chunk has a group, which is that of the chunks of its type of file. -/
theorem get?_groupByFileType_of_mem (hchunk : chunk ∈ chunks) :
    Dict.get? (groupByFileType chunks) chunk.fileType
      = some (chunks.filter (·.fileType = chunk.fileType)) := by
  have hgroup := get?_groupByFileType chunks chunk.fileType
  have hmem : chunk ∈ chunks.filter (·.fileType = chunk.fileType) :=
    List.mem_filter.2 ⟨hchunk, by simp⟩
  rcases hfound : Dict.get? (groupByFileType chunks) chunk.fileType with _ | group
  · rw [hfound, Option.getD_none] at hgroup
    rw [← hgroup] at hmem
    cases hmem
  · rw [hfound, Option.getD_some] at hgroup
    rw [hgroup]

/-- The text of a chunk gets into the text of its type of file. -/
theorem exists_linkFiles (hshallow : Shallow chunks) (hchunk : chunk ∈ chunks)
    (hne : chunk.text canvas ≠ "") {code : Code} (h : linkFiles canvas chunks = .ok code) :
    ∃ text, (chunk.fileType, text) ∈ code ∧ (chunk.text canvas).toList <:+: text.toList := by
  obtain ⟨⟨fileType, text⟩, hentry, hlink⟩ := exists_of_forall₂_left (forall₂_of_mapM h)
    (Dict.mem_of_get? (get?_groupByFileType_of_mem hchunk))
  obtain ⟨text', htext, heq⟩ := exists_of_bind_eq_ok hlink
  cases heq
  refine ⟨_, hentry, infix_linkChunks ?_ (List.mem_filter.2 ⟨hchunk, by simp⟩) hne htext⟩
  exact hshallow.subset (List.filter_subset_self _)

/-- **A chunk with a text gets into a file** of its type. -/
theorem exists_outputFile (hshallow : Shallow chunks) (hchunk : chunk ∈ chunks)
    (hne : chunk.text canvas ≠ "") {code : Code} (h : linkFiles canvas chunks = .ok code)
    (names : OutputNames) (componentName : String) :
    ∃ file ∈ outputFiles names componentName code, file.fileType = chunk.fileType ∧
      (chunk.text canvas).toList <:+: file.content.toList := by
  obtain ⟨text, hentry, hinfix⟩ := exists_linkFiles hshallow hchunk hne h
  have hnonempty : text.isEmpty = false := by
    rw [Bool.eq_false_iff]
    intro hempty
    rw [String.isEmpty_iff.1 hempty, String.toList_empty, List.infix_nil] at hinfix
    exact hne (String.toList_inj.1 hinfix)
  exact ⟨_, List.mem_map_of_mem (List.mem_filter.2 ⟨hentry, by simp [hnonempty]⟩), rfl, hinfix⟩

/-- **The one file of a type** has the text of the chunks for it, if they have one. -/
theorem filter_outputFiles {code : Code} (h : linkFiles canvas chunks = .ok code)
    {fileType text : String} (hlink : linkChunks canvas allPrinters
      (chunks.filter (·.fileType = fileType)) = .ok text) (hne : text.isEmpty = false)
    (names : OutputNames) (componentName : String) :
    (outputFiles names componentName code).filter (·.fileType = fileType)
      = [⟨names.nameFor componentName fileType, fileType, text⟩] := by
  have hgroups := forall₂_of_mapM h
  have hkeys : Dict.keys code = Dict.keys (groupByFileType chunks) := by
    rw [Dict.keys, Dict.keys, ← List.forall₂_eq_eq_eq, List.forall₂_map_left_iff,
      List.forall₂_map_right_iff]
    refine hgroups.flip.imp fun entry group hentry => ?_
    obtain ⟨_, -, heq⟩ := exists_of_bind_eq_ok hentry
    cases heq
    rfl
  have hsorted := (sorted_groupByFileType chunks).of_keys hkeys
  have hentry : (fileType, text) ∈ code := by
    -- a text comes from a chunk
    obtain ⟨chunk, hfiltered⟩ : ∃ chunk, chunk ∈ chunks.filter (·.fileType = fileType) := by
      refine List.exists_mem_of_ne_nil _ fun hnil => ?_
      rw [hnil] at hlink
      cases hlink
      cases hne
    obtain ⟨hchunk, htype⟩ := List.mem_filter.1 hfiltered
    obtain rfl : chunk.fileType = fileType := by simpa using htype
    obtain ⟨_, hmem, hgroup⟩ :=
      exists_of_forall₂_left hgroups (Dict.mem_of_get? (get?_groupByFileType_of_mem hchunk))
    obtain ⟨_, htext, heq⟩ := exists_of_bind_eq_ok hgroup
    cases heq
    cases hlink.symm.trans htext
    exact hmem
  have hfiles : ((code.filter fun entry => !entry.2.isEmpty).filter (·.1 = fileType))
      = [(fileType, text)] :=
    (hsorted.filter _).filter_key (List.mem_filter.2 ⟨hentry, by simp [hne]⟩)
  rw [outputFiles, List.filter_map]
  exact congrArg (List.map _) hfiles

end PageCompiler
