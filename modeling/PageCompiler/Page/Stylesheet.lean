import PageCompiler.Json.Text
import PageCompiler.Page.Context
import PageCompiler.Resolve.Styles
import PageCompiler.Text.Casing

/-!
# Style sheets

Every element with styles gets a class named after its key, and every style set one named after
itself. A style sheet lists the rules in the order of the document: for an element the base
rule and then its variants for states, and after all elements the style sets. The rules for
screens up to a width come at the end, grouped by width from wide to narrow.
-/

namespace PageCompiler

/-- A rule: a selector and declarations of properties. -/
structure Rule where
  selector : String
  declarations : List (String × String)
  deriving DecidableEq, Inhabited, Repr

/-- A rule, with the width of the screens it is for. -/
structure ScopedRule where
  width : Option Binary64
  rule : Rule
  deriving DecidableEq, Inhabited, Repr

/-- The text of a style value, if it is settled. -/
def StyleValue.cssText? : StyleValue → Option String
  | .constant value => some value.toJson.text
  | .dynamic r => if r.scope = .token then some ("var(--" ++ dashCase r.id ++ ")") else none

/-- The declarations of styles: the properties in dashed form, with the settled values. -/
def StyleMap.declarations (styles : StyleMap) : List (String × String) :=
  styles.filterMap fun entry => entry.2.cssText?.map fun value => (dashCase entry.1, value)

/-! ## Rules of an element -/

/-- The selector for a state of an element. -/
def statesSelector (selector : String) (conditions : List StyleCondition) : String :=
  selector ++ String.join (conditions.filterMap fun c =>
    match c with
    | .elementState state => some (":" ++ state)
    | .screenSize _ => none)

/-- The class of a style set. -/
def StyleSet.cssClass (s : StyleSet) : String := dashCase (if s.name.isEmpty then s.id else s.name)

/-- The declarations that a referenced style adds to the base rule of an element. -/
def ReferencedStyle.baseDeclarations (s : ReferencedStyle) : List (String × String) :=
  match s.content with
  | .inlined [] styles => styles.declarations
  | _ => []

/-- The rule for the variant that a referenced style describes. -/
def ReferencedStyle.variant? (selector : String) (s : ReferencedStyle) : Option ScopedRule :=
  match s.content with
  | .inlined [] _ => none
  | .inlined conditions styles =>
    let declarations := styles.declarations
    if declarations.isEmpty then none
    else some ⟨conditions.findSome? StyleCondition.width?,
      ⟨statesSelector selector conditions, declarations⟩⟩
  | _ => none

/-- The class that a referenced style gives to an element. -/
def ReferencedStyle.cssClass? (sets : Dict StyleSet) (s : ReferencedStyle) : Option String :=
  match s.content with
  | .inlined _ _ => none
  | .projectSet id => some (dashCase id)
  | .componentSet id =>
    match Dict.get? sets id with
    | some set => some set.cssClass
    | none => some (dashCase id)

/-- The declarations of the base rule of an element: its own, then the referenced ones. -/
def Element.baseDeclarations (e : Element) : List (String × String) :=
  e.style.declarations ++ (Dict.values e.referencedStyles).flatMap (·.baseDeclarations)

/-- The rules of an element. -/
def Element.rules (e : Element) : List ScopedRule :=
  let selector := "." ++ e.key
  let base := e.baseDeclarations
  (if base.isEmpty then [] else [⟨none, ⟨selector, base⟩⟩])
    ++ (Dict.values e.referencedStyles).filterMap (·.variant? selector)

/-- The classes that an element gets from its styles. -/
def Element.cssClasses (sets : Dict StyleSet) (e : Element) : List String :=
  (if e.rules.isEmpty then [] else [e.key])
    ++ (Dict.values e.referencedStyles).filterMap (·.cssClass? sets)

/-! ## Rules of a style set -/

/-- A rule with a selector, unless there is nothing to declare. -/
def ruleFor (width : Option Binary64) (selector : String) (styles : StyleMap) :
    List ScopedRule :=
  let declarations := styles.declarations
  if declarations.isEmpty then [] else [⟨width, ⟨selector, declarations⟩⟩]

/-- The rule for a condition of a style set. -/
def StyleSetCondition.rules (selector : String) : StyleSetCondition → List ScopedRule
  | .elementState state content => ruleFor none (selector ++ ":" ++ state) content
  | .screenSize maxWidth content => ruleFor (some maxWidth) selector content

/-- The rules of a style set. -/
def StyleSet.rules (s : StyleSet) : List ScopedRule :=
  let selector := "." ++ s.cssClass
  ruleFor none selector s.content ++ s.conditions.flatMap (·.rules selector)

/-! ## The sheet -/

/-- The rules for screens up to a width. -/
structure MediaBlock where
  width : Binary64
  rules : List Rule
  deriving DecidableEq, Inhabited, Repr

/-- Add a rule to the block of its width, or as a block of its own at the end. -/
def addToBlock (width : Binary64) (rule : Rule) : List MediaBlock → List MediaBlock
  | [] => [⟨width, [rule]⟩]
  | block :: rest =>
    if block.width.eqv width then { block with rules := block.rules ++ [rule] } :: rest
    else block :: addToBlock width rule rest

/-- A style sheet. -/
structure Stylesheet where
  rules : List Rule
  blocks : List MediaBlock
  deriving DecidableEq, Inhabited, Repr

/-- The sheet of a list of rules: those for all screens in their order, then the others by
width. -/
def Stylesheet.ofRules (rules : List ScopedRule) : Stylesheet where
  rules := rules.filterMap fun r => if r.width.isNone then some r.rule else none
  blocks :=
    (rules.foldl (fun blocks r =>
      match r.width with
      | some width => addToBlock width r.rule blocks
      | none => blocks) []).mergeSort (atLeastAsWide fun b => some b.width)

/-- The printed form of a rule, after some white space. -/
def Rule.print (indent : String) (r : Rule) : String :=
  indent ++ r.selector ++ " \x7b\n"
    ++ String.join (r.declarations.map fun d => indent ++ "  " ++ d.1 ++ ": " ++ d.2 ++ ";\n")
    ++ indent ++ "\x7d"

/-- The printed form of a media block. -/
def MediaBlock.print (b : MediaBlock) : String :=
  "@media(max-width: " ++ (Json.number (.real b.width)).text ++ "px) \x7b\n"
    ++ "\n".intercalate (b.rules.map (Rule.print "  ")) ++ "\n\x7d"

/-- The printed form of a sheet. -/
def Stylesheet.print (s : Stylesheet) : String :=
  "\n".intercalate (s.rules.map (Rule.print "") ++ s.blocks.map (·.print))

/-- The rules of a component, in the order of its elements and style sets. -/
def Component.rules (c : Component) : List ScopedRule :=
  c.elements.flatMap Element.rules ++ (Dict.values c.styleSets).flatMap (·.rules)

/-- The style sheet of a component. -/
def Component.stylesheet (c : Component) : Stylesheet := .ofRules c.rules

/-! ## The stage -/

/-- Give the elements of a component their classes. -/
def addStyleClasses (sets : Dict StyleSet) (lookup : Lookup) (elements : List Element)
    (c : Context) : Context :=
  elements.foldl (fun c e =>
    (e.cssClasses sets).foldl (fun c name => c.addClass lookup e.key name) c) c

/-- The stage that makes the style sheet of a component and gives its elements their classes.
The elements are found by the table of the template chunk. -/
def stylesheetStage (template : String) (chunkName : Option String) : Stage where
  name := "css"
  run := fun c =>
    match c.findChunk template .markup with
    | none => (.error (.missingChunk template), c)
    | some chunk =>
      let component := c.component
      let context := addStyleClasses component.styleSets (chunk.lookup.getD [])
        component.elements c.context
      let css := component.stylesheet.print
      let context := if css.isEmpty then context
        else context.push {
          name := chunkName.getD component.name
          kind := .text
          fileType := cssFile
          content := .text css }
      (.ok (), { c with context })

end PageCompiler
