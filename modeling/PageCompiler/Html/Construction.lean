import PageCompiler.Html.Dom

/-!
# Tree construction

The state in which a text of markup is made into a tree, and the operations on it that all
insertion modes share: finding and closing open elements, placing what is inserted (in a table
what does not belong there goes in front of it), and taking up formatting again that an end
tag has cut off.

The open elements and the formatting elements are listed with the latest first.
-/

namespace PageCompiler.Html

/-- The insertion modes. -/
inductive Mode where
  | start
  | beforeHtml
  | beforeHead
  | inHead
  | afterHead
  | inBody
  | text
  | inTable
  | inTableText
  | inCaption
  | inColumnGroup
  | inTableBody
  | inRow
  | inCell
  | inSelect
  | inSelectInTable
  | inTemplate
  | afterBody
  | afterAfterBody
  deriving DecidableEq, Inhabited, Repr

/-- An entry in the list of formatting elements. -/
inductive Formatting where
  /-- What stands before it is closed off. -/
  | boundary
  | element (id : Nat)
  deriving DecidableEq, Inhabited, Repr

/-- The state of the construction. -/
structure Construction where
  draft : DomDraft := {}
  mode : Mode := .start
  /-- The mode to return to after text. -/
  returnMode : Mode := .start
  textKind : TextKind := .markup
  /-- The open elements, the innermost first. -/
  opened : List Nat := []
  formatting : List Formatting := []
  head : Option Nat := none
  form : Option Nat := none
  templates : List Mode := []
  /-- Text inside a table, the last character first. -/
  tableText : List Char := []
  /-- Whether what is inserted into a table goes in front of it. -/
  fostering : Bool := false
  /-- Whether a line end that comes next is dropped. -/
  skipLineEnd : Bool := false
  /-- Whether the old layout rules hold. -/
  oldLayout : Bool := false
  finished : Bool := false
  deriving Inhabited

/-- A step of the construction. -/
abbrev Build := StateM Construction

namespace Build

/-! ## Classes of elements -/

/-- Elements that other elements are not looked for beyond. -/
def specialNames : List String := [
  "address", "applet", "area", "article", "aside", "base", "basefont", "bgsound", "blockquote",
  "body", "br", "button", "caption", "center", "col", "colgroup", "dd", "details", "dir", "div",
  "dl", "dt", "embed", "fieldset", "figcaption", "figure", "footer", "form", "frame", "frameset",
  "h1", "h2", "h3", "h4", "h5", "h6", "head", "header", "hgroup", "hr", "html", "iframe", "img",
  "input", "isindex", "li", "link", "listing", "main", "marquee", "menu", "meta", "nav",
  "noembed", "noframes", "noscript", "object", "ol", "p", "param", "plaintext", "pre", "script",
  "section", "select", "source", "style", "summary", "table", "tbody", "td", "template",
  "textarea", "tfoot", "th", "thead", "title", "tr", "track", "ul", "wbr", "xmp"]

/-- Elements that bound a scope. -/
def scopeNames : List String :=
  ["applet", "caption", "html", "table", "td", "th", "marquee", "object", "template"]

/-- Elements whose end tag may be left out. -/
def impliedEndNames : List String := ["dd", "dt", "li", "option", "optgroup", "p", "rb", "rp",
  "rt", "rtc"]

/-- The headings. -/
def headingNames : List String := ["h1", "h2", "h3", "h4", "h5", "h6"]

/-- The kinds of scopes in which an open element is looked for. -/
inductive ScopeKind where
  | general
  | listItem
  | button
  | table
  | select
  deriving DecidableEq

/-! ## Open elements -/

/-- The element with a number. -/
def element (id : Nat) : Build DraftElement := do return (← get).draft.get id

/-- Whether an element is an HTML element of one of the given names. -/
def isNamed (names : List String) (e : DraftElement) : Bool :=
  e.vocabulary = .html && names.contains e.name

/-- The innermost open element. -/
def current : Build Nat := do return (← get).opened.headD 0

/-- Whether the innermost open element has one of the given names. -/
def currentIs (names : List String) : Build Bool := do return isNamed names (← element (← current))

/-- Whether an open element of one of the given names is open at all. -/
def isOpen (names : List String) : Build Bool := do
  let s ← get
  return s.opened.any fun id => isNamed names (s.draft.get id)

/-- Whether an element bounds the scopes of a kind. -/
def bounds (kind : ScopeKind) (e : DraftElement) : Bool :=
  match kind with
  | .table => isNamed ["html", "table", "template"] e
  | .select => !isNamed ["optgroup", "option"] e
  | _ =>
    isNamed scopeNames e
      || (kind = .listItem && isNamed ["ol", "ul"] e)
      || (kind = .button && isNamed ["button"] e)
      || (e.vocabulary = .math
        && ["mi", "mo", "mn", "ms", "mtext", "annotation-xml"].contains e.name)
      || (e.vocabulary = .svg && ["foreignObject", "desc", "title"].contains e.name)

/-- Whether an open element that fits is in scope. -/
def inScopeBy (kind : ScopeKind) (fits : Nat → DraftElement → Bool) : Build Bool := do
  let s ← get
  let rec look : List Nat → Bool
    | [] => false
    | id :: rest =>
      let e := s.draft.get id
      if fits id e then true else if bounds kind e then false else look rest
  return look s.opened

/-- Whether an open element of one of the given names is in scope. -/
def inScope (kind : ScopeKind) (names : List String) : Build Bool :=
  inScopeBy kind fun _ e => isNamed names e

/-- Close the innermost open element. -/
def pop : Build Unit := modify fun s => { s with opened := s.opened.drop 1 }

/-- Close open elements up to and including the first that fits. -/
def popThrough (fits : DraftElement → Bool) : Build Unit :=
  modify fun s =>
    { s with opened := (s.opened.dropWhile fun id => !fits (s.draft.get id)).drop 1 }

/-- Close open elements up to and including the first of one of the given names. -/
def popNamed (names : List String) : Build Unit := popThrough (isNamed names)

/-- Close open elements until one of the given names is the innermost. -/
def popTo (names : List String) : Build Unit :=
  modify fun s =>
    { s with opened := s.opened.dropWhile fun id => !isNamed names (s.draft.get id) }

/-- Close elements whose end tag may be left out, except those of a name. -/
def impliedEnds (except : Option String) : Build Unit :=
  modify fun s =>
    let implied (id : Nat) : Bool :=
      let e := s.draft.get id
      isNamed impliedEndNames e && some e.name ≠ except
    { s with opened := s.opened.dropWhile implied }

/-- Drop an element from the open ones. -/
def removeOpen (id : Nat) : Build Unit :=
  modify fun s => { s with opened := s.opened.filter (· ≠ id) }

/-- Close an open paragraph. -/
def closeParagraph : Build Unit := do
  impliedEnds (some "p")
  popNamed ["p"]

/-- Close a paragraph if one is in scope. -/
def closeParagraphInScope : Build Unit := do
  if ← inScope .button ["p"] then closeParagraph

/-! ## Inserting -/

/-- Where something is inserted. -/
inductive Place where
  | lastOf (parent : Nat)
  | before (sibling : Nat)

/-- Where something that belongs into an element goes. With fostering, what does not belong
into a table goes in front of it. -/
def placeIn (target : Nat) : Build Place := do
  let s ← get
  if !s.fostering then return .lastOf target
  if !isNamed ["table", "tbody", "tfoot", "thead", "tr"] (s.draft.get target) then
    return .lastOf target
  let rec look : List Nat → Place
    | [] => .lastOf target
    | id :: rest =>
      let e := s.draft.get id
      if isNamed ["template"] e then .lastOf id
      else if isNamed ["table"] e then
        if e.parent.isSome then .before id else .lastOf (rest.headD target)
      else match rest with
        | [] => .lastOf id
        | _ => look rest
  return look s.opened

/-- Insert a child at a place. -/
def insertAt (place : Place) (child : DraftChild) : Build Unit :=
  modify fun s =>
    match place with
    | .lastOf parent => { s with draft := s.draft.append parent child }
    | .before sibling => { s with draft := s.draft.insertBefore sibling child }

/-- Insert a child where it belongs. -/
def insert (child : DraftChild) : Build Unit := do insertAt (← placeIn (← current)) child

/-- Insert a character. -/
def insertChar (c : Char) : Build Unit := insert (.text (String.singleton c))

/-- Insert a comment. -/
def insertComment : Build Unit := insert .comment

/-- Make an element without a place. -/
def create (e : DraftElement) : Build Nat :=
  modifyGet fun s =>
    let (id, draft) := s.draft.create e
    (id, { s with draft })

/-- Insert an element and leave it open. -/
def openElement (e : DraftElement) : Build Nat := do
  let id ← create e
  insert (.element id)
  modify fun s => { s with opened := id :: s.opened }
  return id

/-- Insert an HTML element and leave it open. -/
def openNamed (name : String) (attrs : TagAttributes) : Build Unit := do
  let _ ← openElement { name, attrs }

/-- Insert an HTML element that holds nothing. -/
def insertVoid (name : String) (attrs : TagAttributes) : Build Unit := do
  openNamed name attrs
  pop

/-- Insert an element that holds text only. -/
def openText (kind : TextKind) (name : String) (attrs : TagAttributes) : Build Unit := do
  openNamed name attrs
  modify fun s => { s with textKind := kind, returnMode := s.mode, mode := .text }

/-- Add attributes to an element, as far as it lacks them. -/
def addMissing (id : Nat) (attrs : TagAttributes) : Build Unit :=
  modify fun s => { s with draft := s.draft.modify id fun e =>
    { e with attrs := e.attrs ++ attrs.filter fun a => (e.attrs.lookup a.1).isNone } }

/-- Go to a mode. -/
def goTo (mode : Mode) : Build Unit := modify fun s => { s with mode }

/-! ## Formatting -/

/-- Close off the formatting elements. -/
def pushBoundary : Build Unit := modify fun s => { s with formatting := .boundary :: s.formatting }

/-- Forget the formatting elements since the last boundary. -/
def clearToBoundary : Build Unit :=
  modify fun s => { s with formatting := (s.formatting.dropWhile (· ≠ .boundary)).drop 1 }

/-- Whether an entry is an element that is open. -/
def isOpenFormatting (s : Construction) : Formatting → Bool
  | .boundary => false
  | .element id => s.opened.contains id

/-- Open again the formatting elements that an end tag has cut off. -/
def resumeFormatting : Build Unit := do
  let s ← get
  let cut := s.formatting.takeWhile fun f => f ≠ .boundary && !isOpenFormatting s f
  let kept := s.formatting.drop cut.length
  let resumed ← cut.reverse.mapM fun f => do
    match f with
    | .boundary => return f
    | .element id =>
      let e ← element id
      return Formatting.element (← openElement { name := e.name, attrs := e.attrs })
  modify fun s => { s with formatting := resumed.reverse ++ kept }

/-- Whether two elements have the same name and attributes. -/
def sameTag (a b : DraftElement) : Bool :=
  a.name = b.name && a.attrs.length = b.attrs.length
    && a.attrs.all fun x => b.attrs.contains x

/-- Insert a formatting element. Of more than three alike since the last boundary the earliest
is forgotten. -/
def openFormatting (name : String) (attrs : TagAttributes) : Build Unit := do
  let s ← get
  let recent := s.formatting.takeWhile (· ≠ .boundary)
  let alike := recent.filter fun f =>
    match f with
    | .element id => sameTag (s.draft.get id) { name, attrs }
    | .boundary => false
  if alike.length ≥ 3 then
    match alike.getLast? with
    | some earliest => set { s with formatting := s.formatting.filter (· ≠ earliest) }
    | none => pure ()
  let id ← openElement { name, attrs }
  modify fun s => { s with formatting := .element id :: s.formatting }

/-- The latest formatting element of a name since the last boundary. -/
def latestFormatting (name : String) : Build (Option Nat) := do
  let s ← get
  return (s.formatting.takeWhile (· ≠ .boundary)).findSome? fun f =>
    match f with
    | .element id => if isNamed [name] (s.draft.get id) then some id else none
    | .boundary => none

/-- Forget a formatting element. -/
def forgetFormatting (id : Nat) : Build Unit :=
  modify fun s => { s with formatting := s.formatting.filter (· ≠ .element id) }

/-- Close elements by an end tag that no rule of its own is for: up to the nearest open element
of its name, unless a special element comes before. -/
def closeAny (name : String) : Build Unit := do
  let s ← get
  let rec look : List Nat → Option Nat
    | [] => none
    | id :: rest =>
      let e := s.draft.get id
      if isNamed [name] e then some id
      else if isNamed specialNames e then none
      else look rest
  match look s.opened with
  | some id =>
    impliedEnds (some name)
    modify fun s => { s with opened := (s.opened.dropWhile (· ≠ id)).drop 1 }
  | none => pure ()

/-- Replace an entry of a list. -/
def replaceEntry {α : Type} [DecidableEq α] (entries : List α) (old new : α) : List α :=
  entries.map fun x => if x = old then new else x

/-- Put an entry in front of another one of a list, or at the end. -/
def insertBeforeEntry {α : Type} [DecidableEq α] (entries : List α) (mark new : α) : List α :=
  entries.takeWhile (· ≠ mark) ++ new :: entries.dropWhile (· ≠ mark)

/-- The inner loop of the misnesting rules: from `last`, which was found below the open elements
`above`, up to the formatting element, clone the formatting elements on the way and put each
below the next. Answers the topmost clone and the place in the formatting list behind which the
outer clone belongs, if one was set. -/
def cloneUp (formattingId : Nat) :
    (round : Nat) → List Nat → (last : Nat) → (mark : Option Nat) → Build (Nat × Option Nat)
  | _, [], last, mark => return (last, mark)
  | round, id :: above, last, mark => do
    if id = formattingId then return (last, mark)
    let s ← get
    let isFormatting := s.formatting.contains (.element id)
    if round > 3 && isFormatting then
      forgetFormatting id
      removeOpen id
      cloneUp formattingId (round + 1) above last mark
    else if !isFormatting then
      removeOpen id
      cloneUp formattingId (round + 1) above last mark
    else
      let e ← element id
      let clone ← create { name := e.name, attrs := e.attrs }
      modify fun s => { s with
        opened := replaceEntry s.opened id clone
        formatting := replaceEntry s.formatting (.element id) (.element clone) }
      let mark := if mark.isNone then some clone else mark
      modify fun s => { s with draft := s.draft.append clone (.element last) }
      cloneUp formattingId (round + 1) above clone mark

/-- One round of the misnesting rules for an end tag; whether another round may follow. -/
def adoptOnce (name : String) : Build Bool := do
  match ← latestFormatting name with
  | none =>
    closeAny name
    return false
  | some formattingId =>
    let s ← get
    if !s.opened.contains formattingId then
      forgetFormatting formattingId
      return false
    if !(← inScopeBy .general fun id _ => id = formattingId) then return false
    let inner := s.opened.takeWhile (· ≠ formattingId)
    let furthest := (inner.filter fun id => isNamed specialNames (s.draft.get id)).getLast?
    match furthest with
    | none =>
      modify fun s => { s with opened := (s.opened.dropWhile (· ≠ formattingId)).drop 1 }
      forgetFormatting formattingId
      return false
    | some block =>
      let ancestor := ((s.opened.dropWhile (· ≠ formattingId)).drop 1).headD 0
      let above := (s.opened.dropWhile (· ≠ block)).drop 1
      let (last, mark) ← cloneUp formattingId 1 above block none
      -- The topmost clone goes where the ancestor takes things in.
      modify fun s => { s with draft := s.draft.detach last }
      insertAt (← placeIn ancestor) (.element last)
      let e ← element formattingId
      let clone ← create { name := e.name, attrs := e.attrs }
      modify fun s =>
        let draft := (s.draft.moveChildren block clone).append block (.element clone)
        let formatting := match mark with
          | some m =>
            -- Behind the mark in the order of opening, which is in front of it in this list.
            (insertBeforeEntry s.formatting (.element m) (.element clone)).filter
              (· ≠ .element formattingId)
          | none => replaceEntry s.formatting (.element formattingId) (.element clone)
        let opened := insertBeforeEntry (s.opened.filter (· ≠ formattingId)) block clone
        { s with draft, formatting, opened }
      return true

/-- The misnesting rules for the end tag of a formatting element. -/
def adoptRounds (name : String) : (rounds : Nat) → Build Unit
  | 0 => return ()
  | rounds + 1 => do if ← adoptOnce name then adoptRounds name rounds

/-- Close a formatting element, whatever is open inside it. -/
def closeFormatting (name : String) : Build Unit := do
  let s ← get
  let id := s.opened.headD 0
  if isNamed [name] (s.draft.get id) && !s.formatting.contains (.element id) then pop
  else adoptRounds name 8

end Build

end PageCompiler.Html
