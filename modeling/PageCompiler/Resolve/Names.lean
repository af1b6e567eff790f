import PageCompiler.Diagnostic
import PageCompiler.Mapping.Basic
import PageCompiler.Text.Casing

/-!
# Names of a component

The names of the files and of the class of a component follow from its own name unless they
are given, and no name may be one that the target refuses.
-/

namespace PageCompiler

/-- The component with all names of its output filled in. -/
def Component.nameOutput (c : Component) : Component :=
  let given := c.output.getD {}
  let fileName := given.fileName.getD (dashCase c.name)
  { c with output := some { given with
    className := some (given.className.getD (upperCamel c.name))
    fileName := some fileName
    styleFileName := some (given.styleFileName.getD fileName)
    templateFileName := some (given.templateFileName.getD fileName) } }

/-- The name of the class of a component. -/
def Component.className (c : Component) : String :=
  (c.output.bind (·.className)).getD c.name

/-- The first name that the target refuses: the class, then the props, then the states. -/
def Component.illegalName? (c : Component) (mapping : Mapping) : Option (NameRole × String) :=
  let refused := mapping.illegalPropNames.contains
  if mapping.illegalClassNames.contains c.className then some (.className, c.className)
  else match (Dict.keys c.props).find? refused with
    | some name => some (.prop, name)
    | none => ((Dict.keys c.states).find? refused).map fun name => (.state, name)

/-- Complain about a name that the target refuses. -/
def Component.checkNames (c : Component) (mapping : Mapping) : Except Diagnostic Unit :=
  match c.illegalName? mapping with
  | some (role, name) => .error (.illegalName c.name role name)
  | none => .ok ()

end PageCompiler
