import PageCompiler.Document.Writer

/-!
# Reading documents from JSON

Readers for every record of a document, by the rules of `Json.record?`, `Json.variant?` and
`Json.tagged?`. The readers of the tree descend into strictly deeper values, so the depth of
the value is fuel enough; `Node.ofJson?` and its siblings supply it.

The default of a prop or state is a node when it reads as one, whatever the declared kind,
and a plain value otherwise.
-/

namespace PageCompiler

open Json

/-! ## References, dependencies and styles -/

/-- Read a constant. -/
def Literal.ofJson? : Json → Option Literal
  | .bool b => some (.bool b)
  | .number n => some (.number n.toReal)
  | .string s => some (.text s)
  | _ => none

/-- Read a list of texts. -/
def texts? (j : Json) : Option (List String) := items? asString? j

/-- Read a scope. -/
def Scope.ofJson? (j : Json) : Option Scope := do
  let name ← word? (Scope.all.map (·.name)) j
  Scope.all.find? (·.name = name)

/-- Read a reference. -/
def Reference.ofJson? (j : Json) : Option Reference := do
  let m ← record? ["referenceType", "id", "refPath"] j
  some {
    scope := ← required m "referenceType" Scope.ofJson?
    id := ← required m "id" asString?
    path := ← optional m "refPath" texts? }

/-- Read an origin. -/
def Origin.ofJson? (j : Json) : Option Origin := do
  let name ← word? (Origin.all.map (·.name)) j
  Origin.all.find? (·.name = name)

/-- Read import details. -/
def ImportDetails.ofJson? (j : Json) : Option ImportDetails := do
  let m ← record? ["namedImport", "originalName", "importAlias"] j
  some {
    named := ← defaulted m "namedImport" false asBool?
    exportedName := ← optional m "originalName" asString?
    importAlias := ← optional m "importAlias" asString? }

/-- Read a dependency. -/
def Dependency.ofJson? (j : Json) : Option Dependency := do
  let m ← record? ["type", "path", "version", "meta"] j
  some {
    origin := ← required m "type" Origin.ofJson?
    path := ← defaulted m "path" "" asString?
    version := ← optional m "version" asString?
    details := ← optional m "meta" ImportDetails.ofJson? }

/-- Read a style value. -/
def StyleValue.ofJson? (aside : Bool) (j : Json) : Option StyleValue := do
  let (name, content, _) ← variant? ["static", "dynamic"] aside j
  if name = "static" then (Literal.ofJson? content).map .constant
  else (Reference.ofJson? content).map .dynamic

/-- Read a table of styles. -/
def StyleMap.ofJson? (aside : Bool) (j : Json) : Option StyleMap :=
  table? (StyleValue.ofJson? aside) j

/-- Read a screen width. -/
def maxWidth? (j : Json) : Option Binary64 := do
  required (← record? ["maxWidth"] j) "maxWidth" asReal?

/-- Read a style condition. -/
def StyleCondition.ofJson? (aside : Bool) (j : Json) : Option StyleCondition := do
  let (kind, rest) ← tagged? "conditionType" ["element-state", "screen-size"] aside j
  if kind = "element-state" then
    let m ← record? ["content"] rest
    some (.elementState (← required m "content" asString?))
  else
    let m ← record? ["meta"] rest
    some (.screenSize (← required m "meta" maxWidth?))

/-- Read a style source. -/
def StyleSource.ofJson? (aside : Bool) (j : Json) : Option StyleSource := do
  let kinds := ["inlined", "project-referenced", "component-referenced"]
  let (kind, rest) ← tagged? "mapType" kinds aside j
  if kind = "inlined" then
    let m ← record? ["conditions", "styles"] rest
    some (.inlined (← defaulted m "conditions" [] (items? (StyleCondition.ofJson? true)))
      (← defaulted m "styles" [] (StyleMap.ofJson? true)))
  else
    let m ← record? ["referenceId"] rest
    let id ← required m "referenceId" asString?
    some (if kind = "project-referenced" then .projectSet id else .componentSet id)

/-- Read a referenced style. -/
def ReferencedStyle.ofJson? (aside : Bool) (j : Json) : Option ReferencedStyle := do
  let m ← record? ["id", "content"] j
  some {
    id := ← required m "id" asString?
    content := ← required m "content" (StyleSource.ofJson? aside) }

/-- Read a style-set condition. -/
def StyleSetCondition.ofJson? (j : Json) : Option StyleSetCondition := do
  let (kind, rest) ← tagged? "type" ["element-state", "screen-size"] false j
  let m ← record? ["meta", "content"] rest
  if kind = "element-state" then
    let state ← required m "meta" fun meta' => do
      required (← record? ["state"] meta') "state" asString?
    some (.elementState state (← defaulted m "content" [] (StyleMap.ofJson? true)))
  else
    let width ← required m "meta" maxWidth?
    some (.screenSize width (← defaulted m "content" [] (StyleMap.ofJson? true)))

/-- Read a style set. -/
def StyleSet.ofJson? (j : Json) : Option StyleSet := do
  let m ← record? ["id", "name", "type", "content", "conditions"] j
  some {
    id := ← required m "id" asString?
    name := ← defaulted m "name" "" asString?
    kind := ← defaulted m "type" "reusable-project-style-map" asString?
    content := ← defaulted m "content" [] (StyleMap.ofJson? false)
    conditions := ← defaulted m "conditions" [] (items? StyleSetCondition.ofJson?) }

/-! ## Nodes -/

/-- Read an event handler: one member gives its kind, all others are its parameters. -/
def EventHandler.ofJson? (j : Json) : Option EventHandler := do
  match j with
  | .object members =>
    match members.filter (·.1 = "type") with
    | [(_, kind)] =>
      let params := members.filter (·.1 ≠ "type")
      some { kind := ← kind.asString?, params := ← table? value? (.object params) }
    | _ => none
  | _ => none

/-- Read a condition. -/
def Condition.ofJson? (j : Json) : Option Condition := do
  let m ← record? ["operation", "operand"] j
  some {
    operation := ← required m "operation" asString?
    operand := ← optional m "operand" Literal.ofJson? }

/-- Read a group of conditions. -/
def ConditionGroup.ofJson? (j : Json) : Option ConditionGroup := do
  let m ← record? ["conditions", "matchingCriteria"] j
  some {
    conditions := ← defaulted m "conditions" [] (items? Condition.ofJson?)
    criteria := ← optional m "matchingCriteria" asString? }

/-- Read the names of a repetition. -/
def RepetitionNames.ofJson? (j : Json) : Option RepetitionNames := do
  let m ← record? ["dataSourceIdentifier", "iteratorName", "useIndex"] j
  some {
    source := ← optional m "dataSourceIdentifier" asString?
    iterator := ← optional m "iteratorName" asString?
    useIndex := ← defaulted m "useIndex" false asBool? }

mutual

/-- Read a node. -/
def readNode (aside : Bool) : (fuel : Nat) → Json → Option Node
  | 0, _ => none
  | fuel + 1, j => do
    let kinds := ["static", "dynamic", "raw", "inject", "slot", "element", "conditional",
      "repeat", "expr"]
    let (kind, content, aside) ← variant? kinds aside j
    if kind = "static" then (Literal.ofJson? content).map .constant
    else if kind = "dynamic" then (Reference.ofJson? content).map .dynamic
    else if kind = "raw" then content.asString?.map .raw
    else if kind = "inject" then content.asString?.map .inject
    else if kind = "slot" then (readSlot aside fuel content).map .slot
    else if kind = "element" then (readElement aside fuel content).map .element
    else if kind = "conditional" then (readConditional aside fuel content).map .conditional
    else if kind = "repeat" then (readRepetition aside fuel content).map .repetition
    else content.asString?.map .expr

/-- Read a slot. -/
def readSlot (aside : Bool) : (fuel : Nat) → Json → Option Slot
  | 0, _ => none
  | fuel + 1, j => do
    let m ← record? ["name", "fallback"] j
    some {
      name := ← optional m "name" asString?
      fallback := ← optional m "fallback" (readNode aside fuel) }

/-- Read a conditional. -/
def readConditional (aside : Bool) : (fuel : Nat) → Json → Option Conditional
  | 0, _ => none
  | fuel + 1, j => do
    let m ← record? ["node", "reference", "value", "condition"] j
    some {
      node := ← required m "node" (readNode aside fuel)
      reference := ← required m "reference" (readNode aside fuel)
      value := ← optional m "value" Literal.ofJson?
      condition := ← optional m "condition" ConditionGroup.ofJson? }

/-- Read a repetition. -/
def readRepetition (aside : Bool) : (fuel : Nat) → Json → Option Repetition
  | 0, _ => none
  | fuel + 1, j => do
    let m ← record? ["node", "dataSource", "meta"] j
    some {
      node := ← required m "node" (readNode aside fuel)
      source := ← required m "dataSource" (readAttribute aside fuel)
      names := ← defaulted m "meta" {} RepetitionNames.ofJson? }

/-- Read an element. -/
def readElement (aside : Bool) : (fuel : Nat) → Json → Option Element
  | 0, _ => none
  | fuel + 1, j => do
    let m ← record? ["key", "elementType", "name", "semanticType", "dependency", "attrs",
      "events", "style", "referencedStyles", "abilities", "children", "selfClosing"] j
    some {
      key := ← defaulted m "key" "" asString?
      elementType := ← required m "elementType" asString?
      name := ← optional m "name" asString?
      semanticType := ← optional m "semanticType" asString?
      dependency := ← optional m "dependency" Dependency.ofJson?
      attrs := ← defaulted m "attrs" [] (table? (readAttribute aside fuel))
      events := ← defaulted m "events" [] (table? (items? EventHandler.ofJson?))
      style := ← defaulted m "style" [] (StyleMap.ofJson? aside)
      referencedStyles :=
        ← defaulted m "referencedStyles" [] (table? (ReferencedStyle.ofJson? aside))
      abilities := ← optional m "abilities" (readAbilities aside fuel)
      children := ← defaulted m "children" [] (items? (readNode aside fuel))
      selfClosing := ← defaulted m "selfClosing" false asBool? }

/-- Read an attribute. -/
def readAttribute (aside : Bool) : (fuel : Nat) → Json → Option Attribute
  | 0, _ => none
  | fuel + 1, j => do
    let kinds := ["static", "dynamic", "raw", "element", "import", "expr", "object"]
    let (kind, content, aside) ← variant? kinds aside j
    if kind = "static" then (Literal.ofJson? content).map .constant
    else if kind = "dynamic" then (Reference.ofJson? content).map .dynamic
    else if kind = "raw" then content.asString?.map .raw
    else if kind = "element" then (readElement aside fuel content).map .element
    else if kind = "import" then do
      some (.imported (← required (← record? ["id"] content) "id" asString?))
    else if kind = "expr" then content.asString?.map .expr
    else content.value?.map .object

/-- Read abilities. -/
def readAbilities (aside : Bool) : (fuel : Nat) → Json → Option Abilities
  | 0, _ => none
  | fuel + 1, j => do
    let m ← record? ["link"] j
    some { link := ← optional m "link" (readLink aside fuel) }

/-- Read a link ability. -/
def readLink (aside : Bool) : (fuel : Nat) → Json → Option LinkAbility
  | 0, _ => none
  | fuel + 1, j => do
    let (kind, content, aside) ← variant? ["url", "section", "navlink", "mail", "phone"] aside j
    if kind = "url" then do
      let m ← record? ["url", "newTab"] content
      some (.url (← required m "url" (readAttribute aside fuel))
        (← defaulted m "newTab" false asBool?))
    else if kind = "section" then do
      some (.anchor (← required (← record? ["section"] content) "section" asString?))
    else if kind = "navlink" then do
      some (.route (← required (← record? ["routeName"] content) "routeName" asString?))
    else if kind = "mail" then do
      let m ← record? ["mail", "subject", "body"] content
      some (.mail (← required m "mail" asString?) (← optional m "subject" asString?)
        (← optional m "body" asString?))
    else do
      some (.phone (← required (← record? ["phone"] content) "phone" asString?))

end

/-- Read a node from a value. -/
def Node.ofJson? (j : Json) : Option Node := readNode false (j.depth + 1) j

/-- Read an element from a value. -/
def Element.ofJson? (j : Json) : Option Element := readElement false (j.depth + 1) j

/-- Read an attribute from a value. -/
def Attribute.ofJson? (j : Json) : Option Attribute := readAttribute false (j.depth + 1) j

/-- Read a link ability from a value. -/
def LinkAbility.ofJson? (j : Json) : Option LinkAbility := readLink false (j.depth + 1) j

/-- Read a conditional from a value. -/
def Conditional.ofJson? (j : Json) : Option Conditional := readConditional false (j.depth + 1) j

/-! ## Components -/

/-- Read a default: a node if it reads as one, else a plain value. -/
def Default.ofJson? (j : Json) : Option Default :=
  if j.readable then
    match readNode true (j.depth + 1) j with
    | some content => some (.node content)
    | none => some (.value j.canonical)
  else none

/-- Read a prop definition. -/
def PropDefinition.ofJson? (j : Json) : Option PropDefinition := do
  let m ← record? ["type", "defaultValue", "isRequired"] j
  some {
    kind := ← required m "type" asString?
    default := ← optional m "defaultValue" Default.ofJson?
    isRequired := ← defaulted m "isRequired" false asBool? }

/-- Read a state definition. -/
def StateDefinition.ofJson? (j : Json) : Option StateDefinition := do
  let m ← record? ["type", "defaultValue"] j
  some {
    kind := ← required m "type" asString?
    default := ← optional m "defaultValue" Default.ofJson? }

/-- Read a meta value: a text, or an attribute. -/
def MetaValue.ofJson? (j : Json) : Option MetaValue :=
  match j with
  | .string s => some (.text s)
  | _ => if j.readable then (readAttribute true (j.depth + 1) j).map .attribute else none

/-- Read a head asset. -/
def HeadAsset.ofJson? (j : Json) : Option HeadAsset := do
  let m ← record? ["type", "path"] j
  some { kind := ← required m "type" asString?, path := ← required m "path" asString? }

/-- Read the content of a head. -/
def HeadContent.ofJson? (j : Json) : Option HeadContent := do
  let m ← record? ["title", "metaTags", "assets"] j
  some {
    title := ← optional m "title" asString?
    metaTags := ← defaulted m "metaTags" [] (items? (table? MetaValue.ofJson?))
    assets := ← defaulted m "assets" [] (items? HeadAsset.ofJson?) }

/-- Read output names. -/
def OutputNames.ofJson? (j : Json) : Option OutputNames := do
  let m ← record? ["componentClassName", "fileName", "styleFileName", "templateFileName",
    "folderPath"] j
  some {
    className := ← optional m "componentClassName" asString?
    fileName := ← optional m "fileName" asString?
    styleFileName := ← optional m "styleFileName" asString?
    templateFileName := ← optional m "templateFileName" asString?
    folderPath := ← defaulted m "folderPath" [] texts? }

/-- The members of an object with the other name of the root node replaced by its own. -/
def renameRoot : Json → Json
  | .object members =>
    .object (members.map fun m => if m.1 = "rootNode" then ("node", m.2) else m)
  | other => other

/-- Read a component. -/
def Component.ofJson? (j : Json) : Option Component := do
  let m ← record? ["name", "node", "propDefinitions", "stateDefinitions", "styleSetDefinitions",
    "importDefinitions", "seo", "outputOptions"] (renameRoot j)
  some {
    name := ← required m "name" asString?
    node := ← required m "node" Node.ofJson?
    props := ← defaulted m "propDefinitions" [] (table? PropDefinition.ofJson?)
    states := ← defaulted m "stateDefinitions" [] (table? StateDefinition.ofJson?)
    styleSets := ← defaulted m "styleSetDefinitions" [] (table? StyleSet.ofJson?)
    imports := ← defaulted m "importDefinitions" [] (table? Dependency.ofJson?)
    head := ← optional m "seo" HeadContent.ofJson?
    output := ← optional m "outputOptions" OutputNames.ofJson? }

end PageCompiler
