import PageCompiler.Document.Walk
import PageCompiler.Diagnostic

/-!
# Data sources of repetitions

Two repetitions of a component must not share a data source identifier. When none do, the
repetitions without one get `items`, `items1`, `items2` and so on, skipping what is used;
a repetition over a reference needs none.
-/

namespace PageCompiler

/-- The identifiers that repetitions have, in the order of the walk. -/
def Component.dataSources (c : Component) : List String :=
  c.repetitions.filterMap (·.names.source)

/-- The first text of a list that stands in it for the second time. -/
def firstRepeated (seen : List String) : List String → Option String
  | [] => none
  | s :: rest => if seen.contains s then some s else firstRepeated (s :: seen) rest

/-- The identifier with a number; the first one has none. -/
def dataSourceName (n : Nat) : String := if n = 0 then "items" else "items" ++ toString n

/-- The first number from `n` upwards whose identifier is not used, after `fuel` numbers at the
latest. -/
def firstFreeSource (used : List String) : (fuel : Nat) → (n : Nat) → Nat
  | 0, n => n
  | fuel + 1, n => if used.contains (dataSourceName n) then firstFreeSource used fuel (n + 1) else n

/-- The identifiers in use and the number to try next. -/
structure SourceNamer where
  used : List String
  next : Nat := 0

/-- Whether a repetition runs over a reference. -/
def Repetition.isOverReference (r : Repetition) : Bool :=
  match r.source with
  | .dynamic _ => true
  | _ => false

/-- Name the data source of a repetition that needs a name. -/
def nameSource (r : Repetition) : StateM SourceNamer RepetitionNames := do
  if r.names.source.isSome || r.isOverReference then return r.names
  let namer ← get
  let n := firstFreeSource namer.used namer.used.length namer.next
  set (SourceNamer.mk (dataSourceName n :: namer.used) (n + 1))
  return { r.names with source := some (dataSourceName n) }

/-- Name the data sources of a component, unless two of them share an identifier. -/
def Component.nameDataSources (c : Component) : Except Diagnostic Component :=
  match firstRepeated [] c.dataSources with
  | some identifier => .error (.duplicateDataSource c.name identifier)
  | none => .ok ((c.updateM (.ofNames nameSource)).run { used := c.dataSources }).1

end PageCompiler
