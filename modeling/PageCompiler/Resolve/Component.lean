import PageCompiler.Mapping.Apply
import PageCompiler.Resolve.Embedding
import PageCompiler.Resolve.Head
import PageCompiler.Resolve.Keys
import PageCompiler.Resolve.Links
import PageCompiler.Resolve.Names
import PageCompiler.Resolve.Repetitions
import PageCompiler.Resolve.Styles

/-!
# Resolving a component

A component is made ready for a target in a fixed order of steps: style sets, output names, the
check of names, asset addresses in defaults, abilities, styles of elements and embedded markup
in the tree, the mapping, keys, data sources, and the head. The first step that finds a fault
ends the work. The abilities of elements are carried out by a list of steps; links are the one
ability there is by default.
-/

namespace PageCompiler

/-- The component with resolved style sets. -/
def Component.resolveStyleSets (c : Component) (assets : Assets) : Component :=
  { c with styleSets := Dict.mapValues (StyleSet.resolve assets) c.styleSets }

/-- The component with the link abilities in its tree carried out. -/
def Component.wrapLinks (c : Component) (o : Options) : Component :=
  { c with node := c.node.wrapLinks o }

/-- A step that carries out abilities of elements. -/
abbrev AbilityStep := Component → Options → Except Diagnostic Component

/-- The step that carries out link abilities. -/
def linkStep : AbilityStep := fun c o => .ok (c.wrapLinks o)

/-- The component with abilities carried out, step by step. -/
def Component.carryOut (c : Component) (steps : List AbilityStep) (o : Options) :
    Except Diagnostic Component :=
  steps.foldlM (fun c step => step c o) c

/-- The component with resolved styles in its tree. -/
def Component.resolveStyles (c : Component) (assets : Assets) : Component :=
  { c with node := c.node.mapElements (Element.resolveStyles assets) }

/-- The component with the embedded markup in its tree replaced. -/
def Component.embed (c : Component) : Except Diagnostic Component := do
  return { c with node := ← c.node.embed }

/-- The component with a mapping applied to all its trees. -/
def Component.applyMapping (c : Component) (mapping : Mapping) (o : Options) :
    Except Diagnostic Component :=
  c.updateTreesM (Node.applyMapping mapping o)

/-- The component with keys of its elements that no two of them share. -/
def Component.assignFreshKeys (c : Component) : Component := (c.assignKeys {}).1

/-- A mapping with that of the caller merged over it. -/
def Options.effectiveMapping (o : Options) (mapping : Mapping) : Mapping :=
  match o.mapping with
  | some own => mapping.merge own
  | none => mapping

/-- Make a component ready for a target, with steps for the abilities of its elements. -/
def Component.resolveWith (steps : List AbilityStep) (c : Component) (base : Mapping)
    (o : Options) : Except Diagnostic Component := do
  let mapping := o.effectiveMapping base
  let c := (c.resolveStyleSets o.assets).nameOutput
  c.checkNames mapping
  let c ← (c.placeDefaults o.assets).carryOut steps o
  let c ← (c.resolveStyles o.assets).embed
  let c ← c.applyMapping mapping o
  let c ← c.assignFreshKeys.nameDataSources
  c.resolveHead o.assets

/-- Make a component ready for a target. -/
def Component.resolve (c : Component) (base : Mapping) (o : Options) :
    Except Diagnostic Component :=
  c.resolveWith [linkStep] base o

end PageCompiler
