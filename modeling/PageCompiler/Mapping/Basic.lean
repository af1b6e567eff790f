import PageCompiler.Document.Reader

/-!
# Mappings

A mapping says what the abstract element types, event names and attribute names of documents
are called in a target, and which names a target does not allow. Mappings are merged entry by
entry: for each key the later mapping decides, and the lists of refused names grow without
repetitions.
-/

namespace PageCompiler

open Json

/-- What an abstract element becomes. -/
structure ElementMapping where
  elementType : String
  semanticType : Option String := none
  dependency : Option Dependency := none
  /-- Attributes for elements that lack them. A dynamic reference to an attribute stands for
  the element's own attribute of that name. -/
  attrs : Attributes := []
  events : Dict (List EventHandler) := []
  /-- Children to put around the element's own, which go where the first dynamic reference to
  children stands. -/
  children : Option (List Node) := none
  selfClosing : Bool := false
  deriving BEq, Inhabited, Repr

/-- The names of a target. -/
structure Mapping where
  elements : Dict ElementMapping := []
  events : Dict String := []
  attributes : Dict String := []
  illegalClassNames : List String := []
  illegalPropNames : List String := []
  deriving BEq, Inhabited, Repr

/-- Add a name to a list unless it is in there. -/
def addName (names : List String) (name : String) : List String :=
  if names.contains name then names else names ++ [name]

/-- Add names to a list, each unless it is in there. -/
def addNames (names more : List String) : List String := more.foldl addName names

/-- Both mappings together; where they share a key, the second one decides. -/
def Mapping.merge (base later : Mapping) : Mapping where
  elements := Dict.merge base.elements later.elements
  events := Dict.merge base.events later.events
  attributes := Dict.merge base.attributes later.attributes
  illegalClassNames := addNames base.illegalClassNames later.illegalClassNames
  illegalPropNames := addNames base.illegalPropNames later.illegalPropNames

/-! ## Written form -/

/-- An element mapping as a JSON value. -/
def ElementMapping.toJson (m : ElementMapping) : Json :=
  .object (field "elementType" (.string m.elementType)
    ++ field? "semanticType" .string m.semanticType
    ++ field? "dependency" Dependency.toJson m.dependency
    ++ fieldTable "attrs" (attributesJson m.attrs)
    ++ fieldTable "events" (eventsJson m.events)
    ++ field? "children" (fun nodes => .array (nodesJson nodes)) m.children
    ++ flag "selfClosing" m.selfClosing)

/-- Read an element mapping. -/
def ElementMapping.ofJson? (j : Json) : Option ElementMapping := do
  let m ← record? ["elementType", "semanticType", "dependency", "attrs", "events", "children",
    "selfClosing"] j
  some {
    elementType := ← required m "elementType" asString?
    semanticType := ← optional m "semanticType" asString?
    dependency := ← optional m "dependency" Dependency.ofJson?
    attrs := ← defaulted m "attrs" [] (table? Attribute.ofJson?)
    events := ← defaulted m "events" [] (table? (items? EventHandler.ofJson?))
    children := ← optional m "children" (items? Node.ofJson?)
    selfClosing := ← defaulted m "selfClosing" false asBool? }

/-- A mapping as a JSON value. -/
def Mapping.toJson (m : Mapping) : Json :=
  .object (field "elements" (.object (Dict.mapValues ElementMapping.toJson m.elements))
    ++ field "events" (stringTable m.events)
    ++ field "attributes" (stringTable m.attributes)
    ++ field "illegalClassNames" (strings m.illegalClassNames)
    ++ field "illegalPropNames" (strings m.illegalPropNames))

/-- Read a mapping. -/
def Mapping.ofJson? (j : Json) : Option Mapping := do
  let m ← record? ["elements", "events", "attributes", "illegalClassNames",
    "illegalPropNames"] j
  some {
    elements := ← defaulted m "elements" [] (table? ElementMapping.ofJson?)
    events := ← defaulted m "events" [] (table? asString?)
    attributes := ← defaulted m "attributes" [] (table? asString?)
    illegalClassNames := ← defaulted m "illegalClassNames" [] texts?
    illegalPropNames := ← defaulted m "illegalPropNames" [] texts? }

end PageCompiler
