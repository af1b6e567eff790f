import PageCompiler.Document.Transform
import PageCompiler.Page.Generate

/-!
# The template of a page

The stage that generates the markup of a page: the keys of its tree are reserved, the tree is
generated, and the result becomes the template chunk.
-/

namespace PageCompiler

/-- The depth of the generation that a component takes up by itself. -/
def Component.ownDepth (c : Component) : Nat :=
  total (c.trees.map fun tree => tree.depth + 2) + 2

/-- A limit for the depth of a generation. Each expansion goes through one component and holds
expansions of the others, and the defaults of props hold references to each other, so that
without a way back the depth stays within a power of the depth of all trees together. -/
def Environment.depthBound (env : Environment) (ds : Definitions) (node : Node) : Nat :=
  let defaults := total ((defaultNodes ds.props).map fun tree => tree.depth + 2)
  let externals := total ((Dict.values env.externals).map Component.ownDepth)
  Nat.pow (node.depth + defaults + externals + 4) (env.externals.length + 2)

/-- Generate a node of a page. -/
def Environment.generate (env : Environment) (at' : Surroundings) (node : Node) :
    StateM Context (Generated Node Piece) :=
  generateNode env (env.depthBound at'.definitions node) at' node

/-- Register a component that instances can stand for. -/
def registerExternal (externals : Dict Component) (c : Component) : Dict Component :=
  Dict.insert externals (registryName c.name) c

/-- The stage that generates the markup of a page. -/
def templateStage (externals : Dict Component) (styleStage : Stage) (stages : List Stage) :
    Stage where
  name := "html-base-component"
  run := fun c =>
    let component := c.component
    let env : Environment :=
      { externals, styleStage, stages, options := c.options, folder := component.folderPath }
    let at' : Surroundings := {
      definitions := { props := component.props, states := component.states }
      hierarchy := [component.name] }
    let ((node, outcome), context) :=
      (env.generate at' component.node).run (c.context.reserve component.node.keys)
    let c := { c with component := { component with node }, context }
    match outcome with
    | .error d => (.error d, c)
    | .ok piece =>
      let chunk : Chunk := {
        name := templateChunkName
        kind := .markup
        fileType := htmlFile
        content := .markup piece
        lookup := some context.lookup }
      (.ok (), { c with context := context.push chunk })

end PageCompiler
