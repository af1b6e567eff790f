import PageCompiler.Json.Text
import PageCompiler.Location
import PageCompiler.Document.Build
import PageCompiler.Options
import PageCompiler.Diagnostic

/-!
# Values in a page

A page has no values of its own at run time, so every reference stands for the default of the
prop or state it names (`Definitions.value`). Styles and attributes take the text of that
default; a link within the project becomes the way from the folder of the page to the file of
the other page.
-/

namespace PageCompiler

/-- The props and states that references are looked up in. -/
structure Definitions where
  props : Dict PropDefinition := []
  states : Dict StateDefinition := []
  deriving Inhabited, Repr

/-- What a reference stands for: the kind and the default of a definition. -/
structure ReferredValue where
  kind : String
  default : Option Default
  deriving Inhabited, Repr

/-- The kinds of definitions that a page can show. -/
def supportedKinds : List String := ["string", "number", "boolean", "object", "element", "array"]

/-- The definition that a reference names. -/
def Definitions.find (ds : Definitions) (r : Reference) : Except Diagnostic ReferredValue :=
  match r.scope with
  | .prop =>
    match Dict.get? ds.props r.id with
    | some d => .ok ⟨d.kind, d.default⟩
    | none => .error (.missingDefinition r.id .props)
  | .state =>
    match Dict.get? ds.states r.id with
    | some d => .ok ⟨d.kind, d.default⟩
    | none => .error (.missingDefinition r.id .states)
  | _ => .error (.unresolvable r)

/-- What a reference stands for. The kind must be a known one, and only an element can do
without a default. -/
def Definitions.value (ds : Definitions) (r : Reference) : Except Diagnostic ReferredValue := do
  let v ← ds.find r
  if !supportedKinds.contains v.kind then .error (.unsupportedKind r v.kind)
  else if v.kind ≠ "element" && v.default.isNone then .error (.missingDefault r.id v.kind)
  else .ok v

/-- The plain value of a default; `null` for anything else. -/
def ReferredValue.plain (v : ReferredValue) : Json := (v.default.bind (·.asValue?)).getD .null

/-- The value that a path leads to in an object or array, `null` if it leads nowhere; any other
value stays as it is. -/
def extractValue (value : Json) (path : Option (List String)) : Json :=
  match value, path with
  | .object members, some path =>
    if path.isEmpty then value else (Json.at? (.object members) path).getD .null
  | .array items, some path =>
    if path.isEmpty then value else (Json.at? (.array items) path).getD .null
  | _, _ => value

/-- The text that a reference stands for. -/
def ReferredValue.text (v : ReferredValue) (r : Reference) : String :=
  (extractValue v.plain r.path).text

/-- Change items one after the other until a change fails; the items that follow stay as they
are. -/
def sweep {α : Type} (f : α → Except Diagnostic α) : List α → List α × Except Diagnostic Unit
  | [] => ([], .ok ())
  | x :: rest =>
    match f x with
    | .ok y =>
      let (rest, outcome) := sweep f rest
      (y :: rest, outcome)
    | .error d => (x :: rest, .error d)

/-! ## Styles -/

/-- A style value with the text of the definition it refers to, if that is a text or a number.
References to tokens are left to the style sheet. -/
def StyleValue.settle (ds : Definitions) (value : StyleValue) : Except Diagnostic StyleValue :=
  match value with
  | .constant _ => .ok value
  | .dynamic r =>
    if r.scope = .token then .ok value
    else do
      let v ← ds.value r
      return if v.kind = "string" || v.kind = "number" then .text (v.text r) else value

/-- Styles with the texts of the definitions they refer to. -/
def StyleMap.settle (ds : Definitions) (styles : StyleMap) : StyleMap × Except Diagnostic Unit :=
  sweep (fun entry => do return (entry.1, ← entry.2.settle ds)) styles

/-- Referenced styles with the texts of the definitions they refer to. -/
def settleReferenced (ds : Definitions) :
    Dict ReferencedStyle → Dict ReferencedStyle × Except Diagnostic Unit
  | [] => ([], .ok ())
  | (key, s) :: rest =>
    match s.content with
    | .inlined conditions styles =>
      let (styles, outcome) := styles.settle ds
      let s := { s with content := .inlined conditions styles }
      match outcome with
      | .ok _ =>
        let (rest, outcome) := settleReferenced ds rest
        ((key, s) :: rest, outcome)
      | .error d => ((key, s) :: rest, .error d)
    | _ =>
      let (rest, outcome) := settleReferenced ds rest
      ((key, s) :: rest, outcome)

/-- The element with settled styles: the referenced ones first, then its own. -/
def Element.settleStyles (ds : Definitions) (e : Element) : Element × Except Diagnostic Unit :=
  let (referencedStyles, outcome) := settleReferenced ds e.referencedStyles
  let e := { e with referencedStyles }
  match outcome with
  | .ok _ =>
    let (style, outcome) := e.style.settle ds
    ({ e with style }, outcome)
  | .error d => (e, .error d)

/-! ## Attributes -/

/-- The file that a link within the project leads to, from the folder of the page. -/
def localLink (o : Options) (folder : List String) (href : String) : String :=
  let known := o.routes.any (·.navLink = some href)
  let target := if !known && href = "/home" then "/" else href
  let target := if target = "/" then "index" else target
  let way := relativePath ("/" ++ "/".intercalate folder)
    ("/" ++ trimStart (· = '/') target)
  if way.isEmpty then
    let last := (target.toList.reverse.takeWhile (· ≠ '/')).reverse
    String.ofList last ++ ".html"
  else way ++ ".html"

/-- A path from the top of the project, from a folder of a given depth. -/
def climb (depth : Nat) (path : String) : String :=
  if depth = 0 then path
  else String.join (List.replicate depth "../") ++ trimStart (· = '/') path

/-- The text of a constant attribute. -/
def constantText (o : Options) (folder : List String) (elementType name : String)
    (value : Literal) : String :=
  match value with
  | .bool b => if b then "true" else "false"
  | .text s =>
    if name = "href" && s.toList.head? = some '/' then localLink o folder s
    else if elementType = "img" && name = "src" && !isAbsoluteAddress s then
      climb folder.length s
    else s
  | .number x =>
    let s := (Json.number (.real x)).text
    if elementType = "img" && name = "src" && !isAbsoluteAddress s then climb folder.length s
    else s

/-- The text of an attribute in the page, if it has one there. -/
def Attribute.pageText (o : Options) (folder : List String) (ds : Definitions)
    (elementType name : String) : Attribute → Except Diagnostic (Option String)
  | .constant value => .ok (some (constantText o folder elementType name value))
  | .dynamic r => do return some ((← ds.value r).text r)
  | .raw s => .ok (some s)
  | _ => .ok none

/-- The attributes of an element in the page, up to the first that fails. -/
def pageAttributes (o : Options) (folder : List String) (ds : Definitions) (elementType : String) :
    Attributes → Dict String × Except Diagnostic Unit
  | [] => ([], .ok ())
  | (name, value) :: rest =>
    match value.pageText o folder ds elementType name with
    | .ok text =>
      let (others, outcome) := pageAttributes o folder ds elementType rest
      ((text.map fun s => (name, s)).toList ++ others, outcome)
    | .error d => ([], .error d)

end PageCompiler
