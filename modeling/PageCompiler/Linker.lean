import PageCompiler.Chunk

/-!
# Linking

Chunks are put into an order in which each one comes after the chunks it names: again and again
the first chunk that waits for nothing is taken, and nobody waits for its name any longer. Names
that no chunk of the batch has are not waited for. If all chunks that are left wait, they wait
for one another, and the batch yields the empty text.
-/

namespace PageCompiler

/-- A chunk and the names it waits for. -/
structure Waiting where
  chunk : Chunk
  names : List String
  deriving Inhabited, Repr

namespace Waiting

/-- Whether a chunk waits for nothing. -/
def isReady (w : Waiting) : Bool := w.names.isEmpty

/-- Stop waiting for a name. -/
def release (name : String) (w : Waiting) : Waiting :=
  { w with names := w.names.filter (· ≠ name) }

end Waiting

/-- A batch in which each chunk waits for the names that are names in the batch. -/
def waitingBatch (chunks : List Chunk) : List Waiting :=
  let names := chunks.map (·.name)
  chunks.map fun chunk => ⟨chunk, chunk.after.filter names.contains⟩

/-- Take chunks that are ready, `rounds` of them at most: the chunks in the order they were
taken, and those that are left. -/
def takeReady : (rounds : Nat) → List Waiting → List Chunk × List Waiting
  | 0, batch => ([], batch)
  | rounds + 1, batch =>
    match batch.dropWhile (!·.isReady) with
    | [] => ([], batch)
    | next :: behind =>
      let others := (batch.takeWhile (!·.isReady) ++ behind).map (.release next.chunk.name)
      let (taken, left) := takeReady rounds others
      (next.chunk :: taken, left)

/-- The order of a batch, and the chunks that never get ready. -/
def linkOrder (chunks : List Chunk) : List Chunk × List Waiting :=
  takeReady chunks.length (waitingBatch chunks)

/-- The printed forms of the chunks that have one, each ended by a line end. -/
def printChunks (canvas : Canvas) (printers : List ChunkKind) (chunks : List Chunk) :
    Except Diagnostic (List String) := do
  let printed ← chunks.mapM fun chunk => chunk.content.print canvas printers chunk.kind
  return (printed.filter (!·.isEmpty)).map (· ++ "\n")

/-- All kinds of chunks. -/
def allPrinters : List ChunkKind := [.script, .markup, .text]

/-- The text of a batch of chunks. -/
def linkChunks (canvas : Canvas) (printers : List ChunkKind) (chunks : List Chunk) :
    Except Diagnostic String := do
  let (order, left) := linkOrder chunks
  let printed ← printChunks canvas printers order
  return if left.isEmpty then "\n".intercalate printed else ""

/-- The text of each type of file. -/
def linkFiles (canvas : Canvas) (chunks : List Chunk) : Except Diagnostic (Dict String) :=
  (groupByFileType chunks).mapM fun group => do
    return (group.1, ← linkChunks canvas allPrinters group.2)

end PageCompiler
