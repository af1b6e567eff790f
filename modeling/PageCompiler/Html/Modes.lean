import PageCompiler.Html.Foreign

/-!
# Insertion modes

What each token does in each insertion mode. A mode either deals with a token or passes it on:
it changes the mode and asks for the token to be looked at again (`Next.again`).
-/

namespace PageCompiler.Html

/-- What is to be done with a token after a step. -/
inductive Next where
  | done
  | again
  deriving DecidableEq, Inhabited

namespace Build

/-- Done with the token, after something else. -/
def doneAfter (action : Build Unit) : Build Next := do
  action
  return .done

/-- Look at the token again, in another mode. -/
def againIn (mode : Mode) : Build Next := do
  goTo mode
  return .again

/-- Set the mode by the open elements. -/
def resetMode : Build Unit := do
  let s ← get
  let rec look : List Nat → Mode
    | [] => .inBody
    | id :: rest =>
      let e := s.draft.get id
      if e.vocabulary ≠ .html then look rest
      else if e.name = "select" then
        if rest.any fun id => isNamed ["table"] (s.draft.get id) then .inSelectInTable
        else .inSelect
      else if ["td", "th"].contains e.name && !rest.isEmpty then .inCell
      else if e.name = "tr" then .inRow
      else if ["tbody", "thead", "tfoot"].contains e.name then .inTableBody
      else if e.name = "caption" then .inCaption
      else if e.name = "colgroup" then .inColumnGroup
      else if e.name = "table" then .inTable
      else if e.name = "template" then s.templates.headD .inBody
      else if e.name = "head" then .inHead
      else if e.name = "body" then .inBody
      else if e.name = "html" then (if s.head.isSome then .afterHead else .beforeHead)
      else look rest
  goTo (look s.opened)

/-- Add the attributes of a second `html` tag to the first. -/
def mergeHtml (attrs : TagAttributes) : Build Next := doneAfter do
  if !(← isOpen ["template"]) then
    match (← get).opened.getLast? with
    | some id => addMissing id attrs
    | none => pure ()

/-- Begin the content of a template. -/
def openTemplate (attrs : TagAttributes) : Build Next := doneAfter do
  openNamed "template" attrs
  pushBoundary
  goTo .inTemplate
  modify fun s => { s with templates := .inTemplate :: s.templates }

/-- End the content of a template. -/
def closeTemplate : Build Next := doneAfter do
  if ← isOpen ["template"] then
    modify fun s =>
      let implied (id : Nat) : Bool := isNamed
        (["caption", "colgroup", "tbody", "td", "tfoot", "th", "thead", "tr"] ++ impliedEndNames)
        (s.draft.get id)
      { s with opened := s.opened.dropWhile implied }
    popNamed ["template"]
    clearToBoundary
    modify fun s => { s with templates := s.templates.drop 1 }
    resetMode

/-! ## The head -/

/-- Tags that the rules of the head deal with, wherever they stand. -/
def headTags : List String := ["base", "basefont", "bgsound", "link", "meta", "noframes",
  "noscript", "script", "style", "template", "title"]

/-- Insert an element of the head. -/
def openHeadTag (name : String) (attrs : TagAttributes) : Build Next :=
  if ["base", "basefont", "bgsound", "link", "meta"].contains name then
    doneAfter (insertVoid name attrs)
  else if name = "title" then doneAfter (openText (.plainWithReferences name) name attrs)
  else if name = "script" then doneAfter (openText .script name attrs)
  else if name = "template" then openTemplate attrs
  else doneAfter (openText (.plain name) name attrs)

/-- Before anything but white space and a document type. -/
def start (t : Token) : Build Next :=
  match t with
  | .comment => return .done
  | .doctype oldLayout => doneAfter (modify fun s => { s with oldLayout, mode := .beforeHtml })
  | .char c => do
    if isSpace c then return .done
    modify fun s => { s with oldLayout := true }
    againIn .beforeHtml
  | _ => do
    modify fun s => { s with oldLayout := true }
    againIn .beforeHtml

/-- Make the outermost element. -/
def openRoot (attrs : TagAttributes) : Build Unit := do
  let id ← create { name := "html", attrs }
  insertAt (.lastOf 0) (.element id)
  modify fun s => { s with opened := [id] }

/-- Before the outermost element. -/
def beforeHtml (t : Token) : Build Next := do
  let otherwise : Build Next := do
    openRoot []
    againIn .beforeHead
  match t with
  | .comment | .doctype _ => return .done
  | .char c => if isSpace c then return .done else otherwise
  | .openTag "html" attrs _ => doneAfter do
    openRoot attrs
    goTo .beforeHead
  | .closeTag name =>
    if ["head", "body", "html", "br"].contains name then otherwise else return .done
  | _ => otherwise

/-- Make the head. -/
def openHead (attrs : TagAttributes) : Build Unit := do
  openNamed "head" attrs
  modify fun s => { s with head := s.opened.head?, mode := .inHead }

/-- Before the head. -/
def beforeHead (t : Token) : Build Next := do
  let otherwise : Build Next := do
    openHead []
    return .again
  match t with
  | .comment => doneAfter insertComment
  | .doctype _ => return .done
  | .char c => if isSpace c then return .done else otherwise
  | .openTag "html" attrs _ => mergeHtml attrs
  | .openTag "head" attrs _ => doneAfter (openHead attrs)
  | .closeTag name =>
    if ["head", "body", "html", "br"].contains name then otherwise else return .done
  | _ => otherwise

/-- In the head. -/
def inHead (t : Token) : Build Next := do
  let otherwise : Build Next := do
    pop
    againIn .afterHead
  match t with
  | .comment => doneAfter insertComment
  | .doctype _ => return .done
  | .char c => if isSpace c then doneAfter (insertChar c) else otherwise
  | .openTag "html" attrs _ => mergeHtml attrs
  | .openTag "head" _ _ => return .done
  | .openTag name attrs _ => if headTags.contains name then openHeadTag name attrs else otherwise
  | .closeTag "head" => doneAfter do
    pop
    goTo .afterHead
  | .closeTag "template" => closeTemplate
  | .closeTag name => if ["body", "html", "br"].contains name then otherwise else return .done
  | .done => otherwise

/-- Behind the head. -/
def afterHead (t : Token) : Build Next := do
  let otherwise : Build Next := do
    openNamed "body" []
    againIn .inBody
  match t with
  | .comment => doneAfter insertComment
  | .doctype _ => return .done
  | .char c => if isSpace c then doneAfter (insertChar c) else otherwise
  | .openTag "html" attrs _ => mergeHtml attrs
  | .openTag "body" attrs _ => doneAfter do
    openNamed "body" attrs
    goTo .inBody
  | .openTag "head" _ _ => return .done
  | .openTag name attrs _ =>
    if headTags.contains name && name ≠ "noscript" then
      match (← get).head with
      | some head =>
        modify fun s => { s with opened := head :: s.opened }
        let next ← openHeadTag name attrs
        removeOpen head
        return next
      | none => otherwise
    else otherwise
  | .closeTag "template" => closeTemplate
  | .closeTag name => if ["body", "html", "br"].contains name then otherwise else return .done
  | .done => otherwise

/-! ## The body -/

/-- Elements that close a paragraph and are closed by name. -/
def blockTags : List String := [
  "address", "article", "aside", "blockquote", "center", "details", "dialog", "dir", "div", "dl",
  "fieldset", "figcaption", "figure", "footer", "header", "hgroup", "main", "menu", "nav", "ol",
  "p", "search", "section", "summary", "ul"]

/-- Elements that only change how text looks. -/
def formattingTags : List String :=
  ["b", "big", "code", "em", "font", "i", "s", "small", "strike", "strong", "tt", "u"]

/-- Parts of a table. -/
def tablePartTags : List String :=
  ["caption", "col", "colgroup", "tbody", "td", "tfoot", "th", "thead", "tr"]

/-- Begin a list item or one of the two parts of a definition. -/
def openListItem (name : String) (attrs : TagAttributes) : Build Next := doneAfter do
  let names := if name = "li" then ["li"] else ["dd", "dt"]
  let s ← get
  let rec look : List Nat → Option String
    | [] => none
    | id :: rest =>
      let e := s.draft.get id
      if isNamed names e then some e.name
      else if isNamed specialNames e && !isNamed ["address", "div", "p"] e then none
      else look rest
  match look s.opened with
  | some open' =>
    impliedEnds (some open')
    popNamed [open']
  | none => pure ()
  closeParagraphInScope
  openNamed name attrs

/-- Close an element that is in scope, with what its end tag implies. -/
def closeInScope (kind : ScopeKind) (name : String) (except : Option String) : Build Next :=
  doneAfter do
    if ← inScope kind [name] then
      impliedEnds except
      popNamed [name]

/-- A start tag in the body. -/
def openInBody (name : String) (attrs : TagAttributes) (selfClosing : Bool) : Build Next := do
  if name = "html" then mergeHtml attrs
  else if headTags.contains name then openHeadTag name attrs
  else if name = "body" then doneAfter do
    let opened := (← get).opened
    if !(← isOpen ["template"]) && opened.length ≥ 2 then
      let second := opened.getD (opened.length - 2) 0
      if isNamed ["body"] (← element second) then addMissing second attrs
  else if name = "frameset" || name = "frame" || name = "head" || tablePartTags.contains name then
    return .done
  else if blockTags.contains name then doneAfter do
    closeParagraphInScope
    openNamed name attrs
  else if headingNames.contains name then doneAfter do
    closeParagraphInScope
    if ← currentIs headingNames then pop
    openNamed name attrs
  else if name = "pre" || name = "listing" then doneAfter do
    closeParagraphInScope
    openNamed name attrs
    modify fun s => { s with skipLineEnd := true }
  else if name = "form" then doneAfter do
    let inTemplate ← isOpen ["template"]
    if (← get).form.isNone || inTemplate then
      closeParagraphInScope
      openNamed name attrs
      if !inTemplate then modify fun s => { s with form := s.opened.head? }
  else if ["li", "dd", "dt"].contains name then openListItem name attrs
  else if name = "plaintext" then doneAfter do
    closeParagraphInScope
    openNamed name attrs
    modify fun s => { s with textKind := .rest }
  else if name = "button" then doneAfter do
    if ← inScope .general ["button"] then
      impliedEnds none
      popNamed ["button"]
    resumeFormatting
    openNamed name attrs
  else if name = "a" then doneAfter do
    match ← latestFormatting "a" with
    | some id =>
      closeFormatting "a"
      forgetFormatting id
      removeOpen id
    | none => pure ()
    resumeFormatting
    openFormatting name attrs
  else if formattingTags.contains name then doneAfter do
    resumeFormatting
    openFormatting name attrs
  else if name = "nobr" then doneAfter do
    resumeFormatting
    if ← inScope .general ["nobr"] then
      closeFormatting "nobr"
      resumeFormatting
    openFormatting name attrs
  else if ["applet", "marquee", "object"].contains name then doneAfter do
    resumeFormatting
    openNamed name attrs
    pushBoundary
  else if name = "table" then doneAfter do
    if !(← get).oldLayout then closeParagraphInScope
    openNamed name attrs
    goTo .inTable
  else if ["area", "br", "embed", "img", "keygen", "wbr", "input"].contains name then doneAfter do
    resumeFormatting
    insertVoid name attrs
  else if ["param", "source", "track"].contains name then doneAfter (insertVoid name attrs)
  else if name = "hr" then doneAfter do
    closeParagraphInScope
    insertVoid name attrs
  else if name = "image" then doneAfter do
    resumeFormatting
    insertVoid "img" attrs
  else if name = "textarea" then doneAfter do
    openText (.plainWithReferences name) name attrs
    modify fun s => { s with skipLineEnd := true }
  else if name = "xmp" then doneAfter do
    closeParagraphInScope
    resumeFormatting
    openText (.plain name) name attrs
  else if name = "iframe" || name = "noembed" then doneAfter (openText (.plain name) name attrs)
  else if name = "select" then doneAfter do
    resumeFormatting
    openNamed name attrs
    modify fun s =>
      let inTable := [Mode.inTable, .inCaption, .inTableBody, .inRow, .inCell].contains s.mode
      { s with mode := if inTable then .inSelectInTable else .inSelect }
  else if name = "optgroup" || name = "option" then doneAfter do
    if ← currentIs ["option"] then pop
    resumeFormatting
    openNamed name attrs
  else if ["rb", "rtc", "rp", "rt"].contains name then doneAfter do
    if ← inScope .general ["ruby"] then
      impliedEnds (if name = "rp" || name = "rt" then some "rtc" else none)
    openNamed name attrs
  else if name = "math" then doneAfter do
    resumeFormatting
    openForeign .math name attrs selfClosing
  else if name = "svg" then doneAfter do
    resumeFormatting
    openForeign .svg name attrs selfClosing
  else doneAfter do
    resumeFormatting
    openNamed name attrs

/-- An end tag in the body. -/
def closeInBody (name : String) : Build Next := do
  if name = "template" then closeTemplate
  else if name = "body" then doneAfter do
    if ← inScope .general ["body"] then goTo .afterBody
  else if name = "html" then
    if ← inScope .general ["body"] then againIn .afterBody else return .done
  else if name = "p" then doneAfter do
    if !(← inScope .button ["p"]) then openNamed "p" []
    closeParagraph
  else if blockTags.contains name || ["button", "listing", "pre"].contains name then
    closeInScope .general name none
  else if name = "form" then doneAfter do
    if ← isOpen ["template"] then
      if ← inScope .general ["form"] then
        impliedEnds none
        popNamed ["form"]
    else
      let form := (← get).form
      modify fun s => { s with form := none }
      match form with
      | some id =>
        if ← inScopeBy .general fun other _ => other = id then
          impliedEnds none
          removeOpen id
      | none => pure ()
  else if name = "li" then closeInScope .listItem name (some name)
  else if name = "dd" || name = "dt" then closeInScope .general name (some name)
  else if headingNames.contains name then doneAfter do
    if ← inScope .general headingNames then
      impliedEnds none
      popNamed headingNames
  else if formattingTags.contains name || name = "a" || name = "nobr" then
    doneAfter (closeFormatting name)
  else if ["applet", "marquee", "object"].contains name then doneAfter do
    if ← inScope .general [name] then
      impliedEnds none
      popNamed [name]
      clearToBoundary
  else if name = "br" then doneAfter do
    resumeFormatting
    insertVoid "br" []
  else doneAfter (closeAny name)

/-- The end of the text, where no mode has rules of its own for it. -/
def finishText : Build Next := do
  if (← get).templates.isEmpty then doneAfter (modify fun s => { s with finished := true })
  else if ← isOpen ["template"] then
    popNamed ["template"]
    clearToBoundary
    modify fun s => { s with templates := s.templates.drop 1 }
    resetMode
    return .again
  else doneAfter (modify fun s => { s with finished := true })

/-- In the body. -/
def inBody (t : Token) : Build Next :=
  match t with
  | .comment => doneAfter insertComment
  | .doctype _ => return .done
  | .char c => doneAfter do
    if c ≠ '\x00' then
      resumeFormatting
      insertChar c
  | .openTag name attrs selfClosing => openInBody name attrs selfClosing
  | .closeTag name => closeInBody name
  | .done => finishText

/-- Inside an element that holds text only. -/
def inText (t : Token) : Build Next :=
  match t with
  | .char c => doneAfter (insertChar c)
  | .done => do
    pop
    modify fun s => { s with textKind := .markup, mode := s.returnMode }
    return .again
  | _ => doneAfter do
    pop
    modify fun s => { s with textKind := .markup, mode := s.returnMode }

/-! ## Tables -/

/-- Deal with a token as in the body, in front of the table. -/
def inFrontOfTable (t : Token) : Build Next := do
  modify fun s => { s with fostering := true }
  let next ← inBody t
  modify fun s => { s with fostering := false }
  return next

/-- In a table, outside its parts. -/
def inTable (t : Token) : Build Next := do
  match t with
  | .comment => doneAfter insertComment
  | .doctype _ => return .done
  | .char _ =>
    if ← currentIs ["table", "tbody", "tfoot", "thead", "tr"] then
      modify fun s => { s with returnMode := s.mode, tableText := [] }
      againIn .inTableText
    else inFrontOfTable t
  | .openTag name attrs _ =>
    let clear := popTo ["table", "template", "html"]
    if name = "caption" then doneAfter do
      clear
      pushBoundary
      openNamed name attrs
      goTo .inCaption
    else if name = "colgroup" then doneAfter do
      clear
      openNamed name attrs
      goTo .inColumnGroup
    else if name = "col" then
      clear
      openNamed "colgroup" []
      againIn .inColumnGroup
    else if ["tbody", "tfoot", "thead"].contains name then doneAfter do
      clear
      openNamed name attrs
      goTo .inTableBody
    else if ["td", "th", "tr"].contains name then
      clear
      openNamed "tbody" []
      againIn .inTableBody
    else if name = "table" then
      if ← inScope .table ["table"] then
        popNamed ["table"]
        resetMode
        return .again
      else return .done
    else if ["style", "script", "template"].contains name then openHeadTag name attrs
    else if name = "input" && (attrs.lookup "type").map String.toLower = some "hidden" then
      doneAfter (insertVoid name attrs)
    else if name = "form" then doneAfter do
      if !(← isOpen ["template"]) && (← get).form.isNone then
        openNamed name attrs
        modify fun s => { s with form := s.opened.head? }
        pop
    else inFrontOfTable t
  | .closeTag name =>
    if name = "table" then doneAfter do
      if ← inScope .table ["table"] then
        popNamed ["table"]
        resetMode
    else if (["body", "html"] ++ tablePartTags).contains name then return .done
    else if name = "template" then closeTemplate
    else inFrontOfTable t
  | .done => finishText

/-- Text in a table: white space stays, anything else goes in front of the table. -/
def inTableText (t : Token) : Build Next := do
  match t with
  | .char c => doneAfter do
    if c ≠ '\x00' then modify fun s => { s with tableText := c :: s.tableText }
  | _ =>
    let s ← get
    let cs := s.tableText.reverse
    set { s with tableText := [], mode := s.returnMode }
    if cs.all isSpace then cs.forM insertChar
    else cs.forM fun c => do let _ ← inFrontOfTable (.char c)
    return .again

/-- In the caption of a table. -/
def inCaption (t : Token) : Build Next := do
  let close (next : Next) : Build Next := do
    if ← inScope .table ["caption"] then
      impliedEnds none
      popNamed ["caption"]
      clearToBoundary
      goTo .inTable
      return next
    else return .done
  match t with
  | .openTag name _ _ => if tablePartTags.contains name then close .again else inBody t
  | .closeTag name =>
    if name = "caption" then close .done
    else if name = "table" then close .again
    else if (["body", "html"] ++ tablePartTags).contains name then return .done
    else inBody t
  | _ => inBody t

/-- In a group of columns. -/
def inColumnGroup (t : Token) : Build Next := do
  let otherwise : Build Next := do
    if ← currentIs ["colgroup"] then
      pop
      againIn .inTable
    else return .done
  match t with
  | .comment => doneAfter insertComment
  | .doctype _ => return .done
  | .char c => if isSpace c then doneAfter (insertChar c) else otherwise
  | .openTag "html" attrs _ => mergeHtml attrs
  | .openTag "col" attrs _ => doneAfter (insertVoid "col" attrs)
  | .openTag "template" attrs _ => openTemplate attrs
  | .closeTag "template" => closeTemplate
  | .closeTag "colgroup" => doneAfter do
    if ← currentIs ["colgroup"] then
      pop
      goTo .inTable
  | .closeTag "col" => return .done
  | .done => finishText
  | _ => otherwise

/-- In a group of rows. -/
def inTableBody (t : Token) : Build Next := do
  let clear := popTo ["tbody", "tfoot", "thead", "template", "html"]
  let close : Build Next := do
    if ← inScope .table ["tbody", "tfoot", "thead"] then
      clear
      pop
      againIn .inTable
    else return .done
  match t with
  | .openTag name attrs _ =>
    if name = "tr" then doneAfter do
      clear
      openNamed name attrs
      goTo .inRow
    else if name = "th" || name = "td" then
      clear
      openNamed "tr" []
      againIn .inRow
    else if ["caption", "col", "colgroup", "tbody", "tfoot", "thead"].contains name then close
    else inTable t
  | .closeTag name =>
    if ["tbody", "tfoot", "thead"].contains name then doneAfter do
      if ← inScope .table [name] then
        clear
        pop
        goTo .inTable
    else if name = "table" then close
    else if ["body", "caption", "col", "colgroup", "html", "td", "th", "tr"].contains name then
      return .done
    else inTable t
  | _ => inTable t

/-- In a row. -/
def inRow (t : Token) : Build Next := do
  let clear := popTo ["tr", "template", "html"]
  let close (next : Next) : Build Next := do
    if ← inScope .table ["tr"] then
      clear
      pop
      goTo .inTableBody
      return next
    else return .done
  match t with
  | .openTag name attrs _ =>
    if name = "th" || name = "td" then doneAfter do
      clear
      openNamed name attrs
      goTo .inCell
      pushBoundary
    else if ["caption", "col", "colgroup", "tbody", "tfoot", "thead", "tr"].contains name then
      close .again
    else inTable t
  | .closeTag name =>
    if name = "tr" then close .done
    else if name = "table" then close .again
    else if ["tbody", "tfoot", "thead"].contains name then
      if ← inScope .table [name] then close .again else return .done
    else if ["body", "caption", "col", "colgroup", "html", "td", "th"].contains name then
      return .done
    else inTable t
  | _ => inTable t

/-- In a cell. -/
def inCell (t : Token) : Build Next := do
  let close : Build Next := do
    impliedEnds none
    popNamed ["td", "th"]
    clearToBoundary
    againIn .inRow
  match t with
  | .openTag name _ _ =>
    if tablePartTags.contains name then
      if ← inScope .table ["td", "th"] then close else return .done
    else inBody t
  | .closeTag name =>
    if name = "td" || name = "th" then doneAfter do
      if ← inScope .table [name] then
        impliedEnds none
        popNamed [name]
        clearToBoundary
        goTo .inRow
    else if ["body", "caption", "col", "colgroup", "html"].contains name then return .done
    else if ["table", "tbody", "tfoot", "thead", "tr"].contains name then
      if ← inScope .table [name] then close else return .done
    else inBody t
  | _ => inBody t

/-! ## Selections and templates -/

/-- In a selection. -/
def inSelect (t : Token) : Build Next := do
  let close (next : Next) : Build Next := do
    if ← inScope .select ["select"] then
      popNamed ["select"]
      resetMode
      return next
    else return .done
  match t with
  | .comment => doneAfter insertComment
  | .doctype _ => return .done
  | .char c => doneAfter do if c ≠ '\x00' then insertChar c
  | .openTag name attrs _ =>
    if name = "html" then mergeHtml attrs
    else if name = "option" then doneAfter do
      if ← currentIs ["option"] then pop
      openNamed name attrs
    else if name = "optgroup" then doneAfter do
      if ← currentIs ["option"] then pop
      if ← currentIs ["optgroup"] then pop
      openNamed name attrs
    else if name = "select" then close .done
    else if ["input", "keygen", "textarea"].contains name then close .again
    else if name = "script" || name = "template" then openHeadTag name attrs
    else return .done
  | .closeTag name =>
    if name = "option" then doneAfter do
      if ← currentIs ["option"] then pop
    else if name = "optgroup" then doneAfter do
      let s ← get
      let second := s.opened.getD 1 0
      if (← currentIs ["option"]) && isNamed ["optgroup"] (s.draft.get second) then pop
      if ← currentIs ["optgroup"] then pop
    else if name = "select" then close .done
    else if name = "template" then closeTemplate
    else return .done
  | .done => finishText

/-- In a selection inside a table. -/
def inSelectInTable (t : Token) : Build Next := do
  let names := ["caption", "table", "tbody", "tfoot", "thead", "tr", "td", "th"]
  let close : Build Next := do
    popNamed ["select"]
    resetMode
    return .again
  match t with
  | .openTag name _ _ => if names.contains name then close else inSelect t
  | .closeTag name =>
    if names.contains name then
      if ← inScope .table [name] then close else return .done
    else inSelect t
  | _ => inSelect t

/-- In a template. -/
def inTemplate (t : Token) : Build Next := do
  let switch (mode : Mode) : Build Next := do
    modify fun s => { s with templates := mode :: s.templates.drop 1 }
    againIn mode
  match t with
  | .comment | .char _ | .doctype _ => inBody t
  | .openTag name attrs _ =>
    if headTags.contains name && name ≠ "noscript" then openHeadTag name attrs
    else if ["caption", "colgroup", "tbody", "tfoot", "thead"].contains name then switch .inTable
    else if name = "col" then switch .inColumnGroup
    else if name = "tr" then switch .inTableBody
    else if name = "td" || name = "th" then switch .inRow
    else switch .inBody
  | .closeTag name => if name = "template" then closeTemplate else return .done
  | .done => finishText

/-! ## Behind the body -/

/-- Behind the body. -/
def afterBody (t : Token) : Build Next :=
  match t with
  | .comment | .doctype _ => return .done
  | .char c => if isSpace c then inBody t else againIn .inBody
  | .openTag "html" attrs _ => mergeHtml attrs
  | .closeTag "html" => doneAfter (goTo .afterAfterBody)
  | .done => doneAfter (modify fun s => { s with finished := true })
  | _ => againIn .inBody

/-- Behind the outermost element. -/
def afterAfterBody (t : Token) : Build Next :=
  match t with
  | .comment | .doctype _ => return .done
  | .char c => if isSpace c then inBody t else againIn .inBody
  | .openTag "html" attrs _ => mergeHtml attrs
  | .done => doneAfter (modify fun s => { s with finished := true })
  | _ => againIn .inBody

/-! ## All modes -/

/-- Deal with a token in the current mode. -/
def inMode (t : Token) : Build Next := do
  match (← get).mode with
  | .start => start t
  | .beforeHtml => beforeHtml t
  | .beforeHead => beforeHead t
  | .inHead => inHead t
  | .afterHead => afterHead t
  | .inBody => inBody t
  | .text => inText t
  | .inTable => inTable t
  | .inTableText => inTableText t
  | .inCaption => inCaption t
  | .inColumnGroup => inColumnGroup t
  | .inTableBody => inTableBody t
  | .inRow => inRow t
  | .inCell => inCell t
  | .inSelect => inSelect t
  | .inSelectInTable => inSelectInTable t
  | .inTemplate => inTemplate t
  | .afterBody => afterBody t
  | .afterAfterBody => afterAfterBody t

/-- Deal with a token inside a drawing or a formula. -/
def inForeign (t : Token) : Build Next := do
  match t with
  | .char c => doneAfter (insertChar (Scanner.plainChar c))
  | .comment => doneAfter insertComment
  | .doctype _ => return .done
  | .openTag name attrs selfClosing =>
    let coloured := attrs.any fun a => ["color", "face", "size"].contains a.1
    if breakoutNames.contains name || (name = "font" && coloured) then
      leaveForeign
      return .again
    else doneAfter do
      openForeign (← element (← current)).vocabulary name attrs selfClosing
  | .closeTag name =>
    if name = "br" || name = "p" then
      leaveForeign
      return .again
    else if ← closeForeign name then inMode t
    else return .done
  | .done => inMode t

/-- Deal with a token, looking at it again as long as a mode asks for it. -/
def process : (fuel : Nat) → Token → Build Unit
  | 0, _ => return ()
  | fuel + 1, t => do
    let next ← if ← isForeign t then inForeign t else inMode t
    if next = .again then process fuel t

/-- Deal with a token; a line end right behind certain tags is passed over. Each time a token is
looked at again an element was closed or opened or the mode moved on, so the number of open
elements bounds the rounds. -/
def accept (t : Token) : Build Unit := do
  let s ← get
  set { s with skipLineEnd := false }
  if s.skipLineEnd && (match t with | .char '\n' => true | _ => false) then return ()
  process (2 * s.opened.length + 64) t

/-- Read all of a text. Each round takes at least one character off it. -/
def readAll : (fuel : Nat) → List Char → Build Unit
  | 0, _ => return ()
  | fuel + 1, cs => do
    let s ← get
    if s.finished then return ()
    let foreign := match s.opened.head? with
      | some id => (s.draft.get id).vocabulary ≠ .html
      | none => false
    let (tokens, rest) := Scanner.next s.textKind foreign cs
    tokens.forM accept
    readAll fuel rest

end Build

/-- The document that a text of markup stands for. -/
def parseDocument (s : String) : List Dom :=
  let cs := inputChars s
  let (_, done) := (Build.readAll (cs.length + 2) cs).run {}
  done.draft.document

end PageCompiler.Html
