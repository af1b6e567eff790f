import PageCompiler.Json.Basic

/-!
# Component documents

A component is described by a tree of nodes and a few tables beside it: the definitions of
its props and states, its style sets, the dependencies it imports, what belongs into the head
of the page, and how its files are to be called.

Nodes, elements and attributes refer to one another: an element has attributes and children,
an attribute may be an element, and a link ability carries an attribute. They are declared
together. The other records have no part in the recursion.
-/

namespace PageCompiler

/-! ## Values -/

/-- A constant written in a document. -/
inductive Literal where
  | bool (b : Bool)
  | number (x : Binary64)
  | text (s : String)
  deriving BEq, Inhabited, Repr

namespace Literal

/-- The constant as a JSON value. -/
def toJson : Literal → Json
  | .bool b => .bool b
  | .number x => .number (.real x)
  | .text s => .string s

/-- The text, of a text. -/
def asText? : Literal → Option String
  | .text s => some s
  | _ => none

end Literal

/-- What a reference looks its value up in. -/
inductive Scope where
  /-- The props of the component. -/
  | prop
  /-- The states of the component. -/
  | state
  /-- The variables of a repetition. -/
  | iterator
  /-- In a mapping: the attributes of the element that is mapped. -/
  | attr
  /-- In a mapping: the children of the element that is mapped. -/
  | children
  /-- The tokens of the project. -/
  | token
  /-- The texts of the locale. -/
  | locale
  deriving DecidableEq, Inhabited, Repr

/-- A reference by name, with an optional path into the value. -/
structure Reference where
  scope : Scope
  id : String
  path : Option (List String) := none
  deriving BEq, Inhabited, Repr

/-- Where a dependency comes from. -/
inductive Origin where
  | library
  | package
  /-- Another component of the same project. -/
  | project
  deriving DecidableEq, Inhabited, Repr

/-- How the name of a dependency is imported. -/
structure ImportDetails where
  named : Bool := false
  exportedName : Option String := none
  importAlias : Option String := none
  deriving DecidableEq, Inhabited, Repr

/-- Something a component imports. -/
structure Dependency where
  origin : Origin
  path : String := ""
  version : Option String := none
  details : Option ImportDetails := none
  deriving DecidableEq, Inhabited, Repr

/-! ## Styles -/

/-- The value of a style property. -/
inductive StyleValue where
  | constant (value : Literal)
  | dynamic (reference : Reference)
  deriving BEq, Inhabited, Repr

/-- Style properties by name. -/
abbrev StyleMap := Dict StyleValue

/-- When a variant of a referenced style applies. -/
inductive StyleCondition where
  /-- While the element is in a state such as `hover`. -/
  | elementState (state : String)
  /-- On screens up to a width. -/
  | screenSize (maxWidth : Binary64)
  deriving BEq, Inhabited, Repr

/-- What a referenced style stands for. -/
inductive StyleSource where
  /-- The styles themselves, for all the listed conditions or without any. -/
  | inlined (conditions : List StyleCondition) (styles : StyleMap)
  /-- A style set of the project. -/
  | projectSet (id : String)
  /-- A style set of the component. -/
  | componentSet (id : String)
  deriving BEq, Inhabited, Repr

/-- A style that an element refers to. -/
structure ReferencedStyle where
  id : String
  content : StyleSource
  deriving BEq, Inhabited, Repr

/-- A conditional variant of a style set. -/
inductive StyleSetCondition where
  | elementState (state : String) (content : StyleMap)
  | screenSize (maxWidth : Binary64) (content : StyleMap)
  deriving BEq, Inhabited, Repr

/-- A named group of styles that elements can share. -/
structure StyleSet where
  id : String
  name : String := ""
  kind : String := "reusable-project-style-map"
  content : StyleMap := []
  conditions : List StyleSetCondition := []
  deriving BEq, Inhabited, Repr

/-! ## Nodes -/

/-- What happens on an event: a kind and its parameters. -/
structure EventHandler where
  kind : String
  params : Dict Json := []
  deriving BEq, Inhabited, Repr

/-- A comparison, or a test when it has no operand. -/
structure Condition where
  operation : String
  operand : Option Literal := none
  deriving BEq, Inhabited, Repr

/-- Several conditions and how they are combined: `all` must hold, otherwise one is enough. -/
structure ConditionGroup where
  conditions : List Condition := []
  criteria : Option String := none
  deriving BEq, Inhabited, Repr

/-- How the items of a repetition are called. -/
structure RepetitionNames where
  source : Option String := none
  iterator : Option String := none
  useIndex : Bool := false
  deriving BEq, Inhabited, Repr

mutual

/-- A node of the tree. -/
inductive Node where
  | constant (value : Literal)
  | dynamic (reference : Reference)
  /-- Markup that is printed as it stands. -/
  | raw (text : String)
  /-- Code that is put in as it stands. -/
  | inject (text : String)
  | slot (content : Slot)
  | element (content : Element)
  | conditional (content : Conditional)
  | repetition (content : Repetition)
  | expr (text : String)

/-- A place for the children of an instance, with what stands there when it has none. -/
structure Slot where
  name : Option String := none
  fallback : Option Node := none

/-- A node that is shown when a value meets a condition. -/
structure Conditional where
  node : Node
  reference : Node
  value : Option Literal := none
  condition : Option ConditionGroup := none

/-- A node that is shown once for every item of a source. -/
structure Repetition where
  node : Node
  source : Attribute
  names : RepetitionNames := {}

/-- An element of the page, or an instance of another component. -/
structure Element where
  key : String := ""
  elementType : String
  name : Option String := none
  semanticType : Option String := none
  dependency : Option Dependency := none
  attrs : List (String × Attribute) := []
  events : Dict (List EventHandler) := []
  style : StyleMap := []
  referencedStyles : Dict ReferencedStyle := []
  abilities : Option Abilities := none
  children : List Node := []
  selfClosing : Bool := false

/-- The value of an attribute. -/
inductive Attribute where
  | constant (value : Literal)
  | dynamic (reference : Reference)
  | raw (text : String)
  | element (content : Element)
  /-- The name of something imported. -/
  | imported (id : String)
  | expr (text : String)
  | object (value : Json)

/-- What an element can do beside being shown. -/
structure Abilities where
  link : Option LinkAbility := none

/-- Where an element leads to. -/
inductive LinkAbility where
  | url (url : Attribute) (newTab : Bool)
  /-- A part of the same page. -/
  | anchor (id : String)
  /-- Another page of the project. -/
  | route (name : String)
  | mail (address : String) (subject : Option String) (body : Option String)
  | phone (number : String)

end

deriving instance BEq, Repr for
  Node, Slot, Conditional, Repetition, Element, Attribute, Abilities, LinkAbility

instance : Inhabited Node := ⟨.raw ""⟩

instance : Inhabited Attribute := ⟨.raw ""⟩

instance : Inhabited Element := ⟨{ elementType := "" }⟩

/-- Attributes by name. -/
abbrev Attributes := Dict Attribute

/-- The name of a node's kind. -/
def Node.kind : Node → String
  | .constant _ => "static"
  | .dynamic _ => "dynamic"
  | .raw _ => "raw"
  | .inject _ => "inject"
  | .slot _ => "slot"
  | .element _ => "element"
  | .conditional _ => "conditional"
  | .repetition _ => "repeat"
  | .expr _ => "expr"

/-- The name of an attribute's kind. -/
def Attribute.kind : Attribute → String
  | .constant _ => "static"
  | .dynamic _ => "dynamic"
  | .raw _ => "raw"
  | .element _ => "element"
  | .imported _ => "import"
  | .expr _ => "expr"
  | .object _ => "object"

/-- The value an attribute writes out, if it does. -/
def Attribute.literal? : Attribute → Option Json
  | .constant value => some value.toJson
  | .raw text | .expr text => some (.string text)
  | .object value => some value
  | _ => none

/-- Whether the element stands for another component of the project. -/
def Element.isInstance (e : Element) : Bool :=
  match e.dependency with
  | some d => d.origin == .project
  | none => false

/-! ## Components -/

/-- The default of a prop or state: a node, or a plain value. -/
inductive Default where
  | node (content : Node)
  | value (content : Json)
  deriving BEq, Inhabited, Repr

/-- The plain value of a default, if it is one. -/
def Default.asValue? : Default → Option Json
  | .value v => some v
  | .node _ => none

/-- A prop of a component. -/
structure PropDefinition where
  kind : String
  default : Option Default := none
  isRequired : Bool := false
  deriving BEq, Inhabited, Repr

/-- A state of a component. -/
structure StateDefinition where
  kind : String
  default : Option Default := none
  deriving BEq, Inhabited, Repr

/-- The value of a meta tag's attribute. -/
inductive MetaValue where
  | text (s : String)
  | attribute (value : Attribute)
  deriving BEq, Inhabited, Repr

/-- A file the page refers to in its head. -/
structure HeadAsset where
  kind : String
  path : String
  deriving BEq, Inhabited, Repr

/-- What belongs into the head of the page. -/
structure HeadContent where
  title : Option String := none
  metaTags : List (Dict MetaValue) := []
  assets : List HeadAsset := []
  deriving BEq, Inhabited, Repr

/-- How the files of a component are called. -/
structure OutputNames where
  className : Option String := none
  fileName : Option String := none
  styleFileName : Option String := none
  templateFileName : Option String := none
  folderPath : List String := []
  deriving BEq, Inhabited, Repr

/-- A component: its tree and the tables beside it. -/
structure Component where
  name : String
  node : Node
  props : Dict PropDefinition := []
  states : Dict StateDefinition := []
  styleSets : Dict StyleSet := []
  imports : Dict Dependency := []
  head : Option HeadContent := none
  output : Option OutputNames := none
  deriving BEq, Inhabited, Repr

/-- The folder that the files of the component go to. -/
def Component.folderPath (c : Component) : List String :=
  match c.output with
  | some o => o.folderPath
  | none => []

end PageCompiler
