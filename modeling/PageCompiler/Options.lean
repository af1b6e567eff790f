import PageCompiler.Assets
import PageCompiler.Mapping.Basic

/-!
# Options

What a caller can set for the compilation of a component: where assets are served from, which
pages the project has, a mapping of its own, and how other components are found.
-/

namespace PageCompiler

open Json

/-- A page of the project. -/
structure Route where
  /-- The name that link abilities use. -/
  name : String
  /-- The address that links in documents use. -/
  navLink : Option String := none
  fileName : Option String := none
  componentName : Option String := none
  deriving DecidableEq, Inhabited, Repr

/-- The options of one compilation. -/
structure Options where
  assets : Assets := {}
  routeTable : Option (List Route) := none
  /-- Merged over the mapping of the generator. -/
  mapping : Option Mapping := none
  /-- What the paths of other components begin with. -/
  localPrefix : Option String := none
  /-- Links between pages lead to file names. -/
  useFileNames : Bool := false
  deriving BEq, Inhabited, Repr

/-- The pages of the project. -/
def Options.routes (o : Options) : List Route := o.routeTable.getD []

/-! ## Written form -/

/-- Asset rules as a JSON value. -/
def Assets.toJson (a : Assets) : Json :=
  .object (field? "prefix" .string a.location
    ++ field? "identifier" .string a.identifier
    ++ fieldTable "mappings" (a.mappings.map fun entry => (entry.1, .string entry.2)))

/-- Read asset rules. -/
def Assets.ofJson? (j : Json) : Option Assets := do
  let m ← record? ["prefix", "identifier", "mappings"] j
  some {
    location := ← optional m "prefix" asString?
    identifier := ← optional m "identifier" asString?
    mappings := ← defaulted m "mappings" [] (table? asString?) }

/-- A route as a JSON value. -/
def Route.toJson (r : Route) : Json :=
  .object [("value", .string r.name),
    ("pageOptions", .object (field? "navLink" .string r.navLink
      ++ field? "fileName" .string r.fileName
      ++ field? "componentName" .string r.componentName))]

/-- Read a route. -/
def Route.ofJson? (j : Json) : Option Route := do
  let m ← record? ["value", "pageOptions"] j
  let name ← required m "value" asString?
  let page ← defaulted m "pageOptions" [] (record? ["navLink", "fileName", "componentName"])
  some {
    name
    navLink := ← optional page "navLink" asString?
    fileName := ← optional page "fileName" asString?
    componentName := ← optional page "componentName" asString? }

/-- Options as a JSON value. -/
def Options.toJson (o : Options) : Json :=
  .object (field "assets" o.assets.toJson
    ++ field? "projectRouteDefinition"
      (fun routes => .object [("values", .array (routes.map Route.toJson))]) o.routeTable
    ++ field? "mapping" Mapping.toJson o.mapping
    ++ field? "localDependenciesPrefix" .string o.localPrefix
    ++ field "useFileNameForNavigation" (.bool o.useFileNames))

/-- Read a route table. -/
def routeTable? (j : Json) : Option (List Route) := do
  defaulted (← record? ["values"] j) "values" [] (items? Route.ofJson?)

/-- Read options. -/
def Options.ofJson? (j : Json) : Option Options := do
  let m ← record? ["assets", "projectRouteDefinition", "mapping", "localDependenciesPrefix",
    "useFileNameForNavigation"] j
  some {
    assets := ← defaulted m "assets" {} Assets.ofJson?
    routeTable := ← optional m "projectRouteDefinition" routeTable?
    mapping := ← optional m "mapping" Mapping.ofJson?
    localPrefix := ← optional m "localDependenciesPrefix" asString?
    useFileNames := ← defaulted m "useFileNameForNavigation" false asBool? }

end PageCompiler
