import PageCompiler.Assets
import PageCompiler.Diagnostic

/-!
# Asset addresses in defaults and in the head

Plain text defaults of props and states, texts in meta tags and the files of the head are
addresses, and are placed by the asset rules. A meta tag that refers to a prop or a state must
refer to one that exists.
-/

namespace PageCompiler

/-- Place the address in a default. -/
def Default.place (assets : Assets) : Default → Default
  | .value (.string path) => .value (.string (assets.place path))
  | other => other

/-- Place the addresses in the defaults of a component. -/
def Component.placeDefaults (c : Component) (assets : Assets) : Component :=
  { c with
    props := Dict.mapValues
      (fun d => { d with default := d.default.map (·.place assets) }) c.props
    states := Dict.mapValues
      (fun d => { d with default := d.default.map (·.place assets) }) c.states }

/-- Whether a reference of a meta tag has a definition. -/
def Component.defines (c : Component) (r : Reference) : Bool :=
  match r.scope with
  | .prop => Dict.contains c.props r.id
  | .state => Dict.contains c.states r.id
  | _ => true

/-- A resolved value of a meta tag. -/
def MetaValue.resolve (assets : Assets) (c : Component) : MetaValue → Except Diagnostic MetaValue
  | .text s => .ok (.text (assets.place s))
  | .attribute (.constant (.text s)) => .ok (.attribute (.constant (.text (assets.place s))))
  | .attribute (.dynamic reference) =>
    if c.defines reference then .ok (.attribute (.dynamic reference))
    else .error (.missingDefinition reference.id .metaTag)
  | other => .ok other

/-- A resolved head. -/
def HeadContent.resolve (assets : Assets) (c : Component) (h : HeadContent) :
    Except Diagnostic HeadContent := do
  let metaTags ← h.metaTags.mapM fun tag =>
    tag.mapM fun entry => do return (entry.1, ← entry.2.resolve assets c)
  return { h with metaTags, assets := h.assets.map fun a => { a with path := assets.place a.path } }

/-- The component with a resolved head. -/
def Component.resolveHead (c : Component) (assets : Assets) : Except Diagnostic Component := do
  match c.head with
  | some head => return { c with head := some (← head.resolve assets c) }
  | none => return c

end PageCompiler
