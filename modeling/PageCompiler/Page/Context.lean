import PageCompiler.Chunk
import PageCompiler.Options

/-!
# The context of a compilation

What the stages of a compilation build up together: the chunks, the dependencies, the markup and
the table of generated elements by key. Chunks are only added, a dependency replaces an earlier
one of its name, and a key is registered once. Keys can be reserved before their element
exists.

A stage works on a `Compilation`: the component, the options and the context. It leaves what it
has done so far behind even when it fails.
-/

namespace PageCompiler

/-- What has been generated so far. -/
structure Context where
  chunks : List Chunk := []
  dependencies : Dict Dependency := []
  lookup : Lookup := []
  /-- Keys that the elements of instances must not take. -/
  reserved : Dict Unit := []
  canvas : Canvas := {}
  deriving Inhabited, Repr

namespace Context

/-- Add a chunk. -/
def push (c : Context) (chunk : Chunk) : Context := { c with chunks := c.chunks ++ [chunk] }

/-- Add a dependency. -/
def addDependency (c : Context) (name : String) (d : Dependency) : Context :=
  { c with dependencies := Dict.insert c.dependencies name d }

/-- Add dependencies. -/
def addDependencies (c : Context) (ds : Dict Dependency) : Context :=
  { c with dependencies := Dict.merge c.dependencies ds }

/-- Reserve keys. -/
def reserve (c : Context) (keys : List String) : Context :=
  { c with reserved := keys.foldl (fun reserved key => Dict.insert reserved key ()) c.reserved }

/-- Register an element under a key, unless the key is registered. -/
def register? (c : Context) (key : String) (id : Nat) : Option Context :=
  if Dict.contains c.lookup key then none
  else some { c with lookup := Dict.insert c.lookup key id }

/-- Whether a key is registered or reserved. -/
def isUsed (c : Context) (key : String) : Bool :=
  Dict.contains c.lookup key || Dict.contains c.reserved key

/-- The first chunk of a name. -/
def chunk? (c : Context) (name : String) : Option Chunk := c.chunks.find? (·.name = name)

/-- Change the first chunk of a name. -/
def modifyChunk (c : Context) (name : String) (f : Chunk → Chunk) : Context :=
  let before := c.chunks.takeWhile (·.name ≠ name)
  match c.chunks.dropWhile (·.name ≠ name) with
  | chunk :: rest => { c with chunks := before ++ f chunk :: rest }
  | [] => c

/-- Give a registered element a class. -/
def addClass (c : Context) (lookup : Lookup) (key name : String) : Context :=
  match Dict.get? lookup key with
  | some id => { c with canvas := c.canvas.addClass id name }
  | none => c

end Context

/-! ## Stages -/

/-- A component that is being compiled. -/
structure Compilation where
  component : Component
  options : Options
  context : Context := {}
  deriving Inhabited, Repr

/-- The first chunk of a name and kind. -/
def Compilation.findChunk (c : Compilation) (name : String) (kind : ChunkKind) : Option Chunk :=
  c.context.chunks.find? fun chunk => chunk.name = name && chunk.kind = kind

/-- A stage of the compilation. -/
structure Stage where
  name : String
  run : Compilation → Except Diagnostic Unit × Compilation
  deriving Inhabited

/-- Run stages one after the other; the first that fails ends the run. -/
def runStages : List Stage → Compilation → Except Diagnostic Unit × Compilation
  | [], c => (.ok (), c)
  | stage :: rest, c =>
    match stage.run c with
    | (.ok _, c) => runStages rest c
    | (.error d, c) => (.error d, c)

/-- The name of the chunk with the markup of a component. -/
def templateChunkName : String := "html-template"

/-- Types of files. -/
def htmlFile : String := "html"

/-- The type of style sheets. -/
def cssFile : String := "css"

/-- The type of scripts. -/
def jsFile : String := "js"

end PageCompiler
