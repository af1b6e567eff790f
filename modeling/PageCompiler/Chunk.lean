import PageCompiler.Diagnostic
import PageCompiler.Markup.Canvas
import PageCompiler.Script.Layout

/-!
# Chunks

The output of a component is made in chunks: pieces of script, markup or plain text for a file,
which say after which other chunks they come. A chunk of markup can carry a table of the
elements in it, by key, so that later stages find them.
-/

namespace PageCompiler

/-- How a chunk is printed. -/
inductive ChunkKind where
  | script
  | markup
  | text
  deriving DecidableEq, Inhabited, Repr

/-- The name of a kind of chunk. -/
def ChunkKind.name : ChunkKind → String
  | .script => "ast"
  | .markup => "hast"
  | .text => "string"

/-- What a chunk holds. -/
inductive ChunkContent where
  | script (source : String)
  | markup (piece : Piece)
  | text (s : String)
  /-- Parts that are printed one by one, each on lines of its own. -/
  | parts (contents : List ChunkContent)
  | nothing
  deriving Inhabited, Repr

/-- A table of elements by key. -/
abbrev Lookup := Dict Nat

/-- A chunk of the output. -/
structure Chunk where
  name : String
  kind : ChunkKind
  fileType : String
  content : ChunkContent
  /-- The names of the chunks that come before it. -/
  after : List String := []
  lookup : Option Lookup := none
  deriving Inhabited, Repr

namespace ChunkContent

mutual

/-- Whether there is nothing to print. -/
def isEmpty : ChunkContent → Bool
  | .nothing => true
  | .script s => s.isEmpty
  | .text s => s.isEmpty
  | .markup _ => false
  | .parts contents => allEmpty contents

/-- Whether there is nothing to print in any of the parts. -/
def allEmpty : List ChunkContent → Bool
  | [] => true
  | content :: rest => isEmpty content && allEmpty rest

end

/-- The printed form of a content without parts. Scripts are brought into their layout, in a
chunk of scripts. -/
def printSingle (canvas : Canvas) (kind : ChunkKind) : ChunkContent → String
  | .markup piece => canvas.print piece
  | .script s | .text s =>
    match kind with
    | .script => Script.renderScript s
    | _ => s
  | .parts _ | .nothing => ""

/-- The printed form of a content without parts; a kind that has no printer is an error as soon
as there is something to print. -/
def printOne (canvas : Canvas) (printers : List ChunkKind) (kind : ChunkKind)
    (content : ChunkContent) : Except Diagnostic String :=
  if content.isEmpty then .ok ""
  else if printers.contains kind then .ok (content.printSingle canvas kind)
  else .error (.unknownChunkKind kind.name)

mutual

/-- The printed form of a content: of its parts one below the other. -/
def print (canvas : Canvas) (printers : List ChunkKind) (kind : ChunkKind) :
    ChunkContent → Except Diagnostic String
  | .parts contents =>
    if allEmpty contents then .ok ""
    else if printers.contains kind then do
      return "\n".intercalate (← printAll canvas printers kind contents)
    else .error (.unknownChunkKind kind.name)
  | .script s => printOne canvas printers kind (.script s)
  | .text s => printOne canvas printers kind (.text s)
  | .markup piece => printOne canvas printers kind (.markup piece)
  | .nothing => .ok ""

/-- The printed forms of parts. -/
def printAll (canvas : Canvas) (printers : List ChunkKind) (kind : ChunkKind) :
    List ChunkContent → Except Diagnostic (List String)
  | [] => .ok []
  | content :: rest => do
    let first ← print canvas printers kind content
    return first :: (← printAll canvas printers kind rest)

end

mutual

/-- Whether two contents hold the same scripts, texts and markup. -/
def same (canvas : Canvas) : ChunkContent → ChunkContent → Bool
  | .script a, .script b => a = b
  | .text a, .text b => a = b
  | .markup a, .markup b => canvas.markup a == canvas.markup b
  | .parts a, .parts b => allSame canvas a b
  | .nothing, .nothing => true
  | _, _ => false

/-- Whether two lists of parts hold the same. -/
def allSame (canvas : Canvas) : List ChunkContent → List ChunkContent → Bool
  | [], [] => true
  | a :: as, b :: bs => same canvas a b && allSame canvas as bs
  | _, _ => false

end

end ChunkContent

/-- Whether two chunks are alike. Of their tables of elements only the keys count. -/
def Chunk.same (canvas : Canvas) (a b : Chunk) : Bool :=
  a.name = b.name && a.kind = b.kind && a.fileType = b.fileType
    && a.content.same canvas b.content && a.after = b.after
    && a.lookup.map Dict.keys = b.lookup.map Dict.keys

/-- The chunks of each type of file, in the order of the types; inside a type they keep their
order. -/
def groupByFileType (chunks : List Chunk) : Dict (List Chunk) :=
  chunks.foldl (fun groups chunk =>
    Dict.insert groups chunk.fileType ((Dict.get? groups chunk.fileType).getD [] ++ [chunk])) []

end PageCompiler
