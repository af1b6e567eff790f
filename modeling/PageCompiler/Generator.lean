import PageCompiler.Linker
import PageCompiler.Mapping.Targets
import PageCompiler.Page.HeadTags
import PageCompiler.Page.Imports
import PageCompiler.Page.Stylesheet
import PageCompiler.Page.Template
import PageCompiler.Resolve.Component

/-!
# Generators

A generator resolves a component, runs its stages on it, links the chunks of each type of file
and hands the result to its finishing steps. The page generator expands the components that
are registered with it; its stages are the template, the style sheet and the head.
-/

namespace PageCompiler

/-- The finished text of each type of file. -/
abbrev Code := Dict String

/-- A generator of components. -/
structure Generator where
  mapping : Mapping := {}
  stages : List Stage := []
  /-- Change the finished texts before they become files. -/
  finish : List (Code → Code) := []

/-- A file of the output. -/
structure OutputFile where
  name : String
  fileType : String
  content : String
  deriving DecidableEq, Inhabited, Repr

/-- What a component is compiled to. -/
structure Compiled where
  files : List OutputFile := []
  dependencies : Dict Dependency := []
  deriving DecidableEq, Inhabited, Repr

/-- The name of a file of a type. -/
def OutputNames.nameFor (o : OutputNames) (componentName fileType : String) : String :=
  let own := if fileType = cssFile then o.styleFileName
    else if fileType = htmlFile then o.templateFileName
    else none
  (own.or o.fileName).getD componentName

/-- The files of finished texts; empty texts make no file. -/
def outputFiles (o : OutputNames) (componentName : String) (code : Code) : List OutputFile :=
  (code.filter fun entry => !entry.2.isEmpty).map fun entry =>
    ⟨o.nameFor componentName entry.1, entry.1, entry.2⟩

namespace Generator

/-- Make a component ready for the target of the generator. -/
def resolve (g : Generator) (c : Component) (o : Options) : Except Diagnostic Component :=
  c.resolve g.mapping o

/-- Compile a component, running further stages before those of the generator. -/
def generateWith (g : Generator) (leading : List Stage) (c : Component) (o : Options) :
    Except Diagnostic Compiled := do
  let resolved ← g.resolve c o
  let (outcome, done) := runStages (leading ++ g.stages) { component := resolved, options := o }
  outcome
  let code ← linkFiles done.context.canvas done.context.chunks
  let code := g.finish.foldl (fun code step => step code) code
  return {
    files := outputFiles (resolved.output.getD {}) done.component.name code
    dependencies := done.context.dependencies }

/-- Compile a component. -/
def generate (g : Generator) (c : Component) (o : Options) : Except Diagnostic Compiled :=
  g.generateWith [] c o

end Generator

/-! ## Pages -/

/-- The name of the chunk with the styles of a page. -/
def pageStyleChunkName : String := "style"

/-- A generator of pages. -/
structure PageGenerator where
  generator : Generator
  /-- The components that instances can stand for. -/
  externals : Dict Component := []

namespace PageGenerator

/-- The generator of plain pages. -/
def standard : PageGenerator where
  generator := {
    mapping := .html
    stages := [stylesheetStage templateChunkName (some pageStyleChunkName), headStage] }

/-- Resolve components and register them, up to the first that fails. The ones before it stay
registered. -/
def register (p : PageGenerator) (o : Options) :
    List Component → Except Diagnostic Unit × PageGenerator
  | [] => (.ok (), p)
  | c :: rest =>
    match p.generator.resolve c o with
    | .ok resolved => register { p with externals := registerExternal p.externals resolved } o rest
    | .error d => (.error d, p)

/-- The stage that generates the markup of a page. -/
def template (p : PageGenerator) : Stage :=
  templateStage p.externals (stylesheetStage templateChunkName none) []

/-- Compile a page. -/
def generate (p : PageGenerator) (c : Component) (o : Options) : Except Diagnostic Compiled :=
  p.generator.generateWith [p.template] c o

end PageGenerator

/-! ## Finishing -/

/-- Merge the markup, the script and the styles into one file with a section for each. Without
any of them nothing changes. -/
def mergeIntoVueFile (code : Code) : Code :=
  let wrap (fileType tag name : String) : List String :=
    match Dict.get? code fileType with
    | some text => ["<" ++ tag ++ ">\n" ++ text ++ "</" ++ name ++ ">"]
    | none => []
  let sections := wrap htmlFile "template" "template" ++ wrap jsFile "script" "script"
    ++ wrap cssFile "style scoped" "style"
  if sections.isEmpty then code
  else
    let others := Dict.erase (Dict.erase (Dict.erase code htmlFile) jsFile) cssFile
    Dict.insert others "vue" ("\n\n".intercalate sections)

end PageCompiler
