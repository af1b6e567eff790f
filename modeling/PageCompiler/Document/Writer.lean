import PageCompiler.Document.Basic
import PageCompiler.Json.Record

/-!
# Writing documents as JSON

Every record is written as an object with its members in a fixed order, the order in which
messages quote them. A member is left out when it says nothing (an absent value, an unset
flag, an empty table), except where the record always shows it. Variants are written with
their name first and then their content.
-/

namespace PageCompiler

open Json

/-! ## References, dependencies and styles -/

/-- The name of a scope. -/
def Scope.name : Scope → String
  | .prop => "prop"
  | .state => "state"
  | .iterator => "local"
  | .attr => "attr"
  | .children => "children"
  | .token => "token"
  | .locale => "locale"

/-- All scopes, in the order of their declaration. -/
def Scope.all : List Scope := [.prop, .state, .iterator, .attr, .children, .token, .locale]

/-- The written form of a reference. -/
def Reference.toJson (r : Reference) : Json :=
  .object (field "referenceType" (.string r.scope.name) ++ field "id" (.string r.id)
    ++ field? "refPath" strings r.path)

/-- The name of an origin. -/
def Origin.name : Origin → String
  | .library => "library"
  | .package => "package"
  | .project => "local"

/-- All origins, in the order of their declaration. -/
def Origin.all : List Origin := [.library, .package, .project]

/-- The written form of import details. -/
def ImportDetails.toJson (d : ImportDetails) : Json :=
  .object (flag "namedImport" d.named ++ field? "originalName" .string d.exportedName
    ++ field? "importAlias" .string d.importAlias)

/-- The written form of a dependency. -/
def Dependency.toJson (d : Dependency) : Json :=
  .object (field "type" (.string d.origin.name) ++ field "path" (.string d.path)
    ++ field? "version" .string d.version ++ field? "meta" ImportDetails.toJson d.details)

/-- The written form of a style value. -/
def StyleValue.toJson : StyleValue → Json
  | .constant value => variant "static" value.toJson
  | .dynamic reference => variant "dynamic" reference.toJson

/-- The written form of a table of styles. -/
def StyleMap.toJson (styles : StyleMap) : Json := .object (Dict.mapValues StyleValue.toJson styles)

/-- The written form of a screen width. -/
def widthJson (maxWidth : Binary64) : Json := .object [("maxWidth", .number (.real maxWidth))]

/-- The written form of a style condition. -/
def StyleCondition.toJson : StyleCondition → Json
  | .elementState state =>
    .object [("conditionType", .string "element-state"), ("content", .string state)]
  | .screenSize maxWidth =>
    .object [("conditionType", .string "screen-size"), ("meta", widthJson maxWidth)]

/-- The written form of a style source. -/
def StyleSource.toJson : StyleSource → Json
  | .inlined conditions styles =>
    .object [("mapType", .string "inlined"), ("conditions", .array (conditions.map (·.toJson))),
      ("styles", StyleMap.toJson styles)]
  | .projectSet id =>
    .object [("mapType", .string "project-referenced"), ("referenceId", .string id)]
  | .componentSet id =>
    .object [("mapType", .string "component-referenced"), ("referenceId", .string id)]

/-- The written form of a referenced style. -/
def ReferencedStyle.toJson (s : ReferencedStyle) : Json :=
  .object [("id", .string s.id), ("content", s.content.toJson)]

/-- The written form of a style-set condition. -/
def StyleSetCondition.toJson : StyleSetCondition → Json
  | .elementState state content =>
    .object [("type", .string "element-state"), ("meta", .object [("state", .string state)]),
      ("content", StyleMap.toJson content)]
  | .screenSize maxWidth content =>
    .object [("type", .string "screen-size"), ("meta", widthJson maxWidth),
      ("content", StyleMap.toJson content)]

/-- The written form of a style set. -/
def StyleSet.toJson (s : StyleSet) : Json :=
  .object (field "id" (.string s.id) ++ field "name" (.string s.name)
    ++ field "type" (.string s.kind) ++ field "content" (StyleMap.toJson s.content)
    ++ fieldItems "conditions" (s.conditions.map (·.toJson)))

/-! ## Nodes -/

/-- The written form of an event handler: its kind among its parameters. -/
def EventHandler.toJson (h : EventHandler) : Json :=
  .object (("type", .string h.kind) :: h.params)

/-- The written form of a condition. -/
def Condition.toJson (c : Condition) : Json :=
  .object (field "operation" (.string c.operation) ++ field? "operand" Literal.toJson c.operand)

/-- The written form of a group of conditions. -/
def ConditionGroup.toJson (g : ConditionGroup) : Json :=
  .object (field "conditions" (.array (g.conditions.map (·.toJson)))
    ++ field? "matchingCriteria" .string g.criteria)

/-- The written form of the names of a repetition. -/
def RepetitionNames.toJson (n : RepetitionNames) : Json :=
  .object (field? "dataSourceIdentifier" .string n.source
    ++ field? "iteratorName" .string n.iterator ++ flag "useIndex" n.useIndex)

/-- The written form of the handlers of every event. -/
def eventsJson (events : Dict (List EventHandler)) : List (String × Json) :=
  Dict.mapValues (fun handlers => .array (handlers.map (·.toJson))) events

/-- A text, or `null` where there is none. -/
def textOrNull : Option String → Json
  | none => .null
  | some s => .string s

mutual

/-- The written form of a node. -/
def Node.toJson : Node → Json
  | .constant value => variant "static" value.toJson
  | .dynamic reference => variant "dynamic" reference.toJson
  | .raw text => variant "raw" (.string text)
  | .inject text => variant "inject" (.string text)
  | .slot content => variant "slot" content.toJson
  | .element content => variant "element" content.toJson
  | .conditional content => variant "conditional" content.toJson
  | .repetition content => variant "repeat" content.toJson
  | .expr text => variant "expr" (.string text)

/-- The written form of a slot. -/
def Slot.toJson : Slot → Json
  | ⟨name, fallback⟩ => .object (field? "name" .string name ++ fallbackJson fallback)

/-- The member for what a slot falls back to. -/
def fallbackJson : Option Node → List (String × Json)
  | none => []
  | some node => [("fallback", node.toJson)]

/-- The written form of a conditional. -/
def Conditional.toJson : Conditional → Json
  | ⟨node, reference, value, condition⟩ =>
    .object (field "node" node.toJson ++ field "reference" reference.toJson
      ++ field? "value" Literal.toJson value ++ field? "condition" ConditionGroup.toJson condition)

/-- The written form of a repetition. -/
def Repetition.toJson : Repetition → Json
  | ⟨node, source, names⟩ =>
    .object (field "node" node.toJson ++ field "dataSource" source.toJson
      ++ field "meta" names.toJson)

/-- The written form of an element. -/
def Element.toJson : Element → Json
  | ⟨key, elementType, name, semanticType, dependency, attrs, events, style, referencedStyles,
      abilities, children, selfClosing⟩ =>
    .object (field "key" (.string key) ++ field "elementType" (.string elementType)
      ++ field? "name" .string name ++ field? "semanticType" .string semanticType
      ++ field? "dependency" Dependency.toJson dependency
      ++ fieldTable "attrs" (attributesJson attrs)
      ++ fieldTable "events" (eventsJson events)
      ++ fieldTable "style" (Dict.mapValues StyleValue.toJson style)
      ++ fieldTable "referencedStyles" (Dict.mapValues ReferencedStyle.toJson referencedStyles)
      ++ abilitiesJson abilities
      ++ fieldItems "children" (nodesJson children)
      ++ flag "selfClosing" selfClosing)

/-- The written forms of a list of nodes. -/
def nodesJson : List Node → List Json
  | [] => []
  | node :: rest => node.toJson :: nodesJson rest

/-- The written forms of a list of attributes. -/
def attributesJson : List (String × Attribute) → List (String × Json)
  | [] => []
  | (name, value) :: rest => (name, value.toJson) :: attributesJson rest

/-- The written form of an attribute. -/
def Attribute.toJson : Attribute → Json
  | .constant value => variant "static" value.toJson
  | .dynamic reference => variant "dynamic" reference.toJson
  | .raw text => variant "raw" (.string text)
  | .element content => variant "element" content.toJson
  | .imported id => variant "import" (.object [("id", .string id)])
  | .expr text => variant "expr" (.string text)
  | .object value => variant "object" value

/-- The member for the abilities of an element. -/
def abilitiesJson : Option Abilities → List (String × Json)
  | none => []
  | some abilities => [("abilities", abilities.toJson)]

/-- The written form of abilities. -/
def Abilities.toJson : Abilities → Json
  | ⟨none⟩ => .object []
  | ⟨some link⟩ => .object [("link", link.toJson)]

/-- The written form of a link ability. -/
def LinkAbility.toJson : LinkAbility → Json
  | .url url newTab => variant "url" (.object [("url", url.toJson), ("newTab", .bool newTab)])
  | .anchor id => variant "section" (.object [("section", .string id)])
  | .route name => variant "navlink" (.object [("routeName", .string name)])
  | .mail address subject body =>
    variant "mail" (.object [("mail", .string address), ("subject", textOrNull subject),
      ("body", textOrNull body)])
  | .phone digits => variant "phone" (.object [("phone", .string digits)])

end

/-! ## Components -/

/-- The written form of a default. -/
def Default.toJson : Default → Json
  | .node content => content.toJson
  | .value content => content

/-- The written form of a prop definition. -/
def PropDefinition.toJson (d : PropDefinition) : Json :=
  .object (field "type" (.string d.kind) ++ field? "defaultValue" Default.toJson d.default
    ++ flag "isRequired" d.isRequired)

/-- The written form of a state definition. -/
def StateDefinition.toJson (d : StateDefinition) : Json :=
  .object (field "type" (.string d.kind) ++ field? "defaultValue" Default.toJson d.default)

/-- The written form of a meta value. -/
def MetaValue.toJson : MetaValue → Json
  | .text s => .string s
  | .attribute value => value.toJson

/-- The written form of a head asset. -/
def HeadAsset.toJson (a : HeadAsset) : Json :=
  .object [("type", .string a.kind), ("path", .string a.path)]

/-- The written form of the content of a head. -/
def HeadContent.toJson (h : HeadContent) : Json :=
  .object (field? "title" .string h.title
    ++ fieldItems "metaTags"
      (h.metaTags.map fun tag => .object (Dict.mapValues MetaValue.toJson tag))
    ++ fieldItems "assets" (h.assets.map (·.toJson)))

/-- The written form of output names. -/
def OutputNames.toJson (o : OutputNames) : Json :=
  .object (field? "componentClassName" .string o.className ++ field? "fileName" .string o.fileName
    ++ field? "styleFileName" .string o.styleFileName
    ++ field? "templateFileName" .string o.templateFileName
    ++ field "folderPath" (strings o.folderPath))

/-- The written form of a component. -/
def Component.toJson (c : Component) : Json :=
  .object (field "name" (.string c.name) ++ field "node" c.node.toJson
    ++ fieldTable "propDefinitions" (Dict.mapValues PropDefinition.toJson c.props)
    ++ fieldTable "stateDefinitions" (Dict.mapValues StateDefinition.toJson c.states)
    ++ fieldTable "styleSetDefinitions" (Dict.mapValues StyleSet.toJson c.styleSets)
    ++ fieldTable "importDefinitions" (Dict.mapValues Dependency.toJson c.imports)
    ++ field? "seo" HeadContent.toJson c.head
    ++ field? "outputOptions" OutputNames.toJson c.output)

end PageCompiler
