import PageCompiler.Page.Context

/-!
# Imports

The dependencies of a component become import declarations: one chunk for each origin, and in
it one declaration for each path.
-/

namespace PageCompiler

/-- What is imported from one path. -/
structure ImportGroup where
  default : Option String := none
  named : List String := []
  deriving DecidableEq, Inhabited, Repr

/-- The path that a dependency is imported from. -/
def Dependency.importPath (localPrefix : Option String) (d : Dependency) : String :=
  match d.details.bind (·.importAlias), d.origin, localPrefix with
  | some path, _, _ => path
  | none, .project, some start => trimEnd (· = '/') start ++ "/" ++ dropDotSlashes d.path.toList
  | none, _, _ => d.path
where
  /-- The path without all steps to the current folder at its start. -/
  dropDotSlashes : List Char → String
    | '.' :: '/' :: rest => dropDotSlashes rest
    | cs => String.ofList cs

/-- How a name is imported by name: under the name it has in its module. -/
def importSpecifier (name : String) (details : ImportDetails) : String :=
  match details.exportedName with
  | some exported => if exported = name then name else exported ++ " as " ++ name
  | none => name

/-- Add a dependency to what is imported from its path. -/
def ImportGroup.add (g : ImportGroup) (name : String) (d : Dependency) : ImportGroup :=
  match d.details with
  | some details =>
    if details.named then
      let specifier := importSpecifier name details
      if g.named.contains specifier then g else { g with named := g.named ++ [specifier] }
    else { g with default := some name }
  | none => { g with default := some name }

/-- What is imported from each path, of the dependencies of one origin. -/
def importGroups (dependencies : Dict Dependency) (origin : Origin) (localPrefix : Option String) :
    Dict ImportGroup :=
  (dependencies.filter (·.2.origin = origin)).foldl (fun groups entry =>
    let path := entry.2.importPath localPrefix
    Dict.insert groups path (((Dict.get? groups path).getD {}).add entry.1 entry.2)) []

/-- The declaration of what is imported from a path. -/
def ImportGroup.source (g : ImportGroup) (path : String) : String :=
  Script.importSource g.default g.named path

/-- The name of the chunk for an origin, and the chunks that come before it. -/
def importChunkNames : Origin → String × List String
  | .library => ("import-lib", [])
  | .package => ("import-pack", ["import-lib"])
  | .project => ("import-local", ["import-lib", "import-pack"])

/-- The chunk of the declarations for an origin, if there are any. -/
def importChunk? (dependencies : Dict Dependency) (localPrefix : Option String)
    (origin : Origin) : Option Chunk :=
  let groups := importGroups dependencies origin localPrefix
  if groups.isEmpty then none
  else
    let (name, after) := importChunkNames origin
    some {
      name
      kind := .script
      fileType := jsFile
      content := .parts (groups.map fun g => .script (g.2.source g.1))
      after }

/-- The stage that imports what a component depends on. -/
def importStage : Stage where
  name := "import-statements"
  run := fun c =>
    let dependencies := Dict.merge c.component.imports c.context.dependencies
    let chunks := [Origin.library, .package, .project].filterMap
      (importChunk? dependencies c.options.localPrefix)
    (.ok (), { c with context := chunks.foldl (·.push ·) c.context })

end PageCompiler
