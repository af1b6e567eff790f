import PageCompiler.Condition
import PageCompiler.Page.Context
import PageCompiler.Page.Reference
import PageCompiler.Page.Slot
import PageCompiler.Resolve.Keys
import PageCompiler.Text.Sha256

/-!
# Generating a page

A resolved tree becomes markup. A page is plain markup, so conditionals are decided from the
defaults of props, references are replaced by defaults, and every instance of another component
is expanded in place: the tree of the component gets keys that nothing on the page has, the
children of the instance fill its slot, and it is generated inside a wrapper, with the
attributes of the instance as the defaults of its props and states. The styles of the
expanded component are made into a chunk of their own.

Generation also leaves its traces in the nodes: styles are settled, and an instance gives its
children away. A node is therefore answered together with the outcome.

A component may lead back into itself, so the depth of the generation is limited; going beyond
the limit is an error of its own.
-/

namespace PageCompiler

/-- What all nodes of one page have in common. -/
structure Environment where
  externals : Dict Component
  styleStage : Stage
  /-- Stages that run after the style stage for every instance. -/
  stages : List Stage
  options : Options
  /-- The folder of the page. -/
  folder : List String

/-- Where a node is generated: the definitions that its references name, and the components from
the page down to the current one. -/
structure Surroundings where
  definitions : Definitions
  hierarchy : List String
  deriving Inhabited

/-- The outcome of generating part of a node, with the part as it is afterwards. -/
abbrev Generated (α β : Type) := α × Except Diagnostic β

/-! ## Texts of the page -/

/-- What stands for a conditional that is not shown. -/
def conditionalPlaceholder : String := "Conditional nodes are not supported in HTML"

/-- What stands for an expression. -/
def expressionPlaceholder : String := "Expressions are not supported in HTML"

/-! ## Names of components -/

/-- The name that a component is registered under. -/
def registryName (name : String) : String := if name = "Component" then "AppComponent" else name

/-- The name of the component that an instance stands for. -/
def Element.componentName (e : Element) : String :=
  registryName ((e.semanticType.or e.name).getD e.elementType)

/-! ## Scopes of instances -/

/-- The props of the caller that an instance sees, with its own over them: elements are not
passed on. -/
def combineProps (caller own : Dict PropDefinition) : Dict PropDefinition :=
  Dict.merge (caller.filter fun entry => entry.2.kind ≠ "element") own

/-- A state of an instance, with the attribute of its name as the default. -/
def instanceState (attrs : Attributes) (entry : String × StateDefinition) :
    Except Diagnostic (String × StateDefinition) :=
  match Dict.get? attrs entry.1 with
  | some (.object _) => .error (.objectForState entry.1)
  | some value =>
    match value.literal? with
    | some content => .ok (entry.1, { entry.2 with default := some (.value content) })
    | none => .ok entry
  | none => .ok entry

/-- The definition that an instance passes on for one of its props, if it is a reference. -/
def forwarded (ds : Definitions) (r : Reference) (own : PropDefinition) :
    Except Diagnostic PropDefinition :=
  match r.scope with
  | .prop => .ok ((Dict.get? ds.props r.id).getD own)
  | .state =>
    match Dict.get? ds.states r.id with
    | some s => .ok { kind := s.kind, default := s.default, isRequired := false }
    | none => .ok own
  | _ => .error (.unforwardable r)

/-- A prop of an instance from an attribute other than an element. -/
def instanceProp (ds : Definitions) (value : Attribute) (own : PropDefinition) :
    Except Diagnostic PropDefinition :=
  match value with
  | .dynamic r => forwarded ds r own
  | _ =>
    match value.literal? with
    | some content => .ok { own with default := some (.value content) }
    | none => .ok own

/-! ## Wrappers -/

/-- The most keys that are tried for one wrapper: one for each suffix there can be. -/
def wrapperTries : Nat := Nat.pow 16 5

/-- The first free key of a wrapper among those with a suffix. The suffix follows from the key of
the instance, which gets longer with every try. -/
def suffixedWrapperKey? (c : Context) (base : String) : (tries : Nat) → String → Option String
  | 0, _ => none
  | tries + 1, seed =>
    let key := base ++ "-" ++ Sha256.suffix seed
    if c.isUsed key then suffixedWrapperKey? c base tries (seed.push '#') else some key

/-- The key of the wrapper of an instance: the name of the component tells it, and a suffix is
added when it is used already. -/
def wrapperKey? (c : Context) (componentName instanceKey : String) : Option String :=
  let base := dashCase (componentName ++ "-wrapper")
  if c.isUsed base then suffixedWrapperKey? c base wrapperTries instanceKey else some base

/-- The wrapper of an instance. -/
def wrapperElement (key : String) (root : Node) : Element where
  key := key
  elementType := key
  name := some key
  style := [("display", .text "contents")]
  children := [root]

/-! ## Pieces -/

/-- Add an element to the canvas. -/
def createTag (t : Tag) : StateM Context Nat :=
  modifyGet fun c =>
    let (id, canvas) := c.canvas.create t
    (id, { c with canvas })

/-- A `span` with one piece in it. -/
def spanWith (piece : Piece) : StateM Context (Except Diagnostic Piece) := do
  return .ok (.element (← createTag { name := "span", children := [piece] }))

/-- Register a generated element under a key. -/
def registerElement (key : String) (e : Element) (id : Nat) (hierarchy : List String) :
    StateM Context (Except Diagnostic Unit) := do
  let c ← get
  match c.register? key id with
  | some c =>
    set c
    return .ok ()
  | none =>
    let existing := match Dict.get? c.lookup key with
      | some other => c.canvas.print (.element other)
      | none => ""
    return .error (.duplicateKey key hierarchy (c.canvas.print (.element id)) e existing)

/-- Whether a conditional shows its node, as far as the defaults of props can tell. -/
def Conditional.isShown (ds : Definitions) (c : Conditional) : Bool :=
  match c.reference with
  | .dynamic r =>
    if r.scope = .prop then
      match (Dict.get? ds.props r.id).bind (·.default) with
      | some (.value default) =>
        let value := (r.path.bind fun path => default.at? path).getD default
        match (ConditionSet.ofConditional c).holds value with
        | .ok shown => shown
        | .error _ => false
      | _ => false
    else false
  | _ => false

/-! ## Stages of an instance -/

/-- Run the style stage and the further stages on an expanded instance. Its style sheets and its
dependencies become those of the page. -/
def runInstanceStages (env : Environment) (component : Component) (id : Nat) :
    StateM Context (Except Diagnostic Unit) := do
  let c ← get
  let template : Chunk := {
    name := templateChunkName
    kind := .markup
    fileType := htmlFile
    content := .markup (.element id)
    lookup := some c.lookup }
  let context : Context :=
    { chunks := [template], dependencies := c.dependencies, canvas := c.canvas }
  let (outcome, done) := runStages (env.styleStage :: env.stages)
    { component, options := env.options, context }
  let c := { c with canvas := done.context.canvas }
  match outcome with
  | .error d =>
    set c
    return .error d
  | .ok _ =>
    let sheets := done.context.chunks.filter (·.fileType = cssFile)
    set ({ c with chunks := c.chunks ++ sheets }.addDependencies done.context.dependencies)
    return .ok ()

/-! ## Nodes -/

/-- The element that was registered under the key of a node. -/
def Node.registered? (node : Node) (c : Context) : Option Nat :=
  match node with
  | .element e => Dict.get? c.lookup e.key
  | _ => none

/-- Generate parts one after the other, up to the first that fails. -/
def generateEach {α β : Type} (generate : α → StateM Context (Generated α β)) :
    List α → StateM Context (Generated (List α) (List β))
  | [] => return ([], .ok [])
  | part :: rest => do
    let (part, outcome) ← generate part
    match outcome with
    | .error d => return (part :: rest, .error d)
    | .ok result =>
      let (rest, outcome) ← generateEach generate rest
      return (part :: rest, outcome.map (result :: ·))

/-- The props of an instance, one after the other, up to the first that fails. An element among
the attributes is generated where the instance stands, so that its references are those of the
caller. -/
def generateProps (generate : Element → StateM Context (Generated Element Nat))
    (caller : Definitions) : Attributes → Dict PropDefinition →
    StateM Context (Generated Attributes (Dict PropDefinition))
  | attrs, [] => return (attrs, .ok [])
  | attrs, (name, own) :: rest => do
    match Dict.get? attrs name with
    | some (.element e) =>
      let (e, outcome) ← generate e
      let attrs := Dict.insert attrs name (.element e)
      match outcome with
      | .error d => return (attrs, .error d)
      | .ok _ =>
        let definition := { own with default := some (.node (.element e)) }
        let (attrs, outcome) ← generateProps generate caller attrs rest
        return (attrs, outcome.map ((name, definition) :: ·))
    | some value =>
      match instanceProp caller value own with
      | .error d => return (attrs, .error d)
      | .ok definition =>
        let (attrs, outcome) ← generateProps generate caller attrs rest
        return (attrs, outcome.map ((name, definition) :: ·))
    | none =>
      let (attrs, outcome) ← generateProps generate caller attrs rest
      return (attrs, outcome.map ((name, own) :: ·))

mutual

/-- Generate a node. -/
def generateNode (env : Environment) : (fuel : Nat) → Surroundings → Node →
    StateM Context (Generated Node Piece)
  | 0, _, node => return (node, .error .endless)
  | fuel + 1, at', node => do
    match node with
    | .raw s | .inject s => return (node, .ok (.raw s))
    | .constant value => return (node, .ok (.text value.toJson.text))
    | .slot _ => return (node, .ok (.element (← createTag { name := "slot" })))
    | .expr _ => return (node, .ok (.comment expressionPlaceholder))
    | .repetition _ => return (node, .error (.unsupportedNode node))
    | .element e =>
      let (e, outcome) ← generateElement env fuel at' e
      return (.element e, outcome.map .element)
    | .dynamic r => return (node, ← generateReference env fuel at' r)
    | .conditional c =>
      if c.isShown at'.definitions then
        let (inner, outcome) ← generateNode env fuel at' c.node
        return (.conditional { c with node := inner }, outcome)
      else return (node, .ok (.comment conditionalPlaceholder))

/-- Generate the value that a reference stands for. -/
def generateReference (env : Environment) : (fuel : Nat) → Surroundings → Reference →
    StateM Context (Except Diagnostic Piece)
  | 0, _, _ => return .error .endless
  | fuel + 1, at', r => do
    if r.scope = .locale then spanWith (.comment ("Content for locale " ++ r.id))
    else match at'.definitions.value r with
      | .error d => return .error d
      | .ok v =>
        if v.kind = "object" || v.kind = "array" then return .ok (.text (v.text r))
        else if v.kind = "element" then
          match v.default with
          | some (.node node) =>
            match node.registered? (← get) with
            | some id => return .ok (.element id)
            | none => return (← generateNode env fuel at' node).2
          | _ => spanWith (.comment ("Content for slot " ++ r.id))
        else spanWith (.text v.plain.text)

/-- Generate an element: an instance is expanded, any other element becomes a tag. -/
def generateElement (env : Environment) : (fuel : Nat) → Surroundings → Element →
    StateM Context (Generated Element Nat)
  | 0, _, e => return (e, .error .endless)
  | fuel + 1, at', e => do
    if e.isInstance then
      let (e, outcome) ← expandInstance env fuel at' e
      match outcome with
      | .error d => return (e, .error d)
      | .ok id =>
        let title := (e.semanticType.or e.name).getD ""
        modify fun c =>
          { c with canvas := c.canvas.prepend id (.comment (title ++ " component")) }
        return (e, .ok id)
    else
      match e.dependency with
      | some d => modify (·.addDependency (e.name.getD e.elementType) d)
      | none => pure ()
      let (children, outcome) ← generateEach (generateNode env fuel at') e.children
      let e := { e with children }
      match outcome with
      | .error d => return (e, .error d)
      | .ok pieces =>
        let (e, outcome) := e.settleStyles at'.definitions
        match outcome with
        | .error d => return (e, .error d)
        | .ok _ =>
          let (attrs, outcome) :=
            pageAttributes env.options env.folder at'.definitions e.elementType e.attrs
          match outcome with
          | .error d => return (e, .error d)
          | .ok _ =>
            let id ← createTag { name := e.elementType, attrs, children := pieces }
            return (e, (← registerElement e.key e id at'.hierarchy).map fun _ => id)

/-- Expand an instance; the number of its wrapper. -/
def expandInstance (env : Environment) : (fuel : Nat) → Surroundings → Element →
    StateM Context (Generated Element Nat)
  | 0, _, e => return (e, .error .endless)
  | fuel + 1, at', e => do
    let name := e.componentName
    match Dict.get? env.externals name with
    | none => return (e, .error (.missingExternal name))
    | some external =>
      let c ← get
      let ledger := KeyLedger.seeded (Dict.keys c.lookup ++ Dict.keys c.reserved)
      let (component, _) := external.assignKeys ledger
      modify (·.reserve component.node.keys)
      let root := if e.children.isEmpty then component.node
        else (component.node.fillSlot e.children).getD component.node
      let e := { e with children := [] }
      let states := Dict.merge at'.definitions.states component.states
      match states.mapM (instanceState e.attrs) with
      | .error d => return (e, .error d)
      | .ok states =>
        let props := combineProps at'.definitions.props component.props
        let (attrs, outcome) ←
            generateProps (generateElement env fuel at') at'.definitions e.attrs props
        let e := { e with attrs }
        match outcome with
        | .error d => return (e, .error d)
        | .ok props =>
          match wrapperKey? (← get) name e.key with
          | none => return (e, .error .endless)
          | some key =>
            let hierarchy := at'.hierarchy ++ [name]
            let inside : Surroundings := { definitions := { props, states }, hierarchy }
            let (wrapper, outcome) ← generateElement env fuel inside (wrapperElement key root)
            match outcome with
            | .error d => return (e, .error d)
            | .ok id =>
              let component := { component with node := .element wrapper, props, states }
              match ← runInstanceStages env component id with
              | .error d => return (e, .error d)
              | .ok _ =>
                return (e, (← registerElement e.key e id hierarchy).map fun _ => id)

end

end PageCompiler
