import PageCompiler.Html.Reference

/-!
# Tokens of markup

`Scanner.next` takes one token off the front of a text. What counts as a token depends on where
the tree stands: inside some elements only the matching end tag is markup (`TextKind`).
Tag and attribute names are in lower case, and of two attributes with one name the first
counts. A tag that the text breaks off in is no token at all.
-/

namespace PageCompiler.Html

/-- Attributes in the order they were written. -/
abbrev TagAttributes := List (String × String)

/-- A token. -/
inductive Token where
  | char (c : Char)
  | openTag (name : String) (attrs : TagAttributes) (selfClosing : Bool)
  | closeTag (name : String)
  | comment
  /-- A document type; `oldLayout` says that it calls for the old layout rules. -/
  | doctype (oldLayout : Bool)
  | done
  deriving Inhabited, Repr

/-- What the text at the current place is. -/
inductive TextKind where
  | markup
  /-- Text with references up to an end tag. -/
  | plainWithReferences (element : String)
  /-- Text as it stands up to an end tag. -/
  | plain (element : String)
  /-- A script: text as it stands up to an end tag outside nested scripts in comments. -/
  | script
  /-- Text as it stands up to the end. -/
  | rest
  deriving DecidableEq, Inhabited, Repr

/-- White space of markup. -/
def isSpace (c : Char) : Bool := c = '\t' || c = '\n' || c = '\x0c' || c = ' ' || c = '\r'

/-- A letter, digit or mark of a name, with the letter in lower case. -/
def nameChar (c : Char) : Char := if c = '\x00' then Char.ofNat 0xFFFD else c.toLower

/-- A name from its characters. -/
def nameOf (cs : List Char) : String := String.ofList (cs.map nameChar)

/-- Whether a text begins with a word, in whatever case of its letters. -/
def startsWith (word : String) (cs : List Char) : Bool :=
  word.toList.isPrefixOf ((cs.take word.length).map Char.toLower)

namespace Scanner

/-- Whether a character ends a tag name. -/
def endsName (c : Char) : Bool := isSpace c || c = '/' || c = '>'

/-- The value of an attribute, from what stands behind the equals sign, and the rest; nothing
if the text breaks off. -/
def attributeValue? (cs : List Char) : Option (String × List Char) :=
  let quoted (quote : Char) (rest : List Char) : Option (String × List Char) :=
    match rest.dropWhile (· ≠ quote) with
    | _ :: after =>
      let value := rest.takeWhile (· ≠ quote)
      some (String.ofList (decode true value.length value), after)
    | [] => none
  match cs.dropWhile isSpace with
  | [] => none
  | '"' :: rest => quoted '"' rest
  | '\'' :: rest => quoted '\'' rest
  | '>' :: rest => some ("", '>' :: rest)
  | rest =>
    let ends (c : Char) : Bool := isSpace c || c = '>'
    let value := rest.takeWhile (!ends ·)
    some (String.ofList (decode true value.length value), rest.dropWhile (!ends ·))

/-- The attributes of a tag, whether it closes itself, and the rest behind the tag; nothing if
the text breaks off. Each round reads at least one character. -/
def attributes? : (fuel : Nat) → List Char → Option (TagAttributes × Bool × List Char)
  | 0, _ => none
  | fuel + 1, cs =>
    match cs with
    | [] => none
    | '>' :: rest => some ([], false, rest)
    | '/' :: '>' :: rest => some ([], true, rest)
    | c :: rest =>
      if isSpace c || c = '/' then attributes? fuel rest
      else
        let name := c :: rest.takeWhile fun d => !(endsName d || d = '=')
        let after := (rest.dropWhile fun d => !(endsName d || d = '=')).dropWhile isSpace
        let (value, after) := match after with
          | '=' :: more => ((attributeValue? more).map (·.1), ((attributeValue? more).map (·.2)))
          | _ => (some "", some after)
        do
          let (attrs, selfClosing, after) ← attributes? fuel (← after)
          let name := nameOf name
          some ((name, ← value) :: attrs.filter (·.1 ≠ name), selfClosing, after)

/-- A tag, from the first letter of its name: the name, the attributes, whether it closes
itself, and the rest. -/
def tag? (cs : List Char) : Option (String × TagAttributes × Bool × List Char) := do
  let name := cs.takeWhile (!endsName ·)
  let after := cs.dropWhile (!endsName ·)
  let (attrs, selfClosing, rest) ← attributes? (after.length + 1) after
  some (nameOf name, attrs, selfClosing, rest)

/-- What stands behind the end of a comment, from what stands behind `<!--`. -/
def afterComment : List Char → List Char
  | '-' :: '-' :: '>' :: rest => rest
  | '-' :: '-' :: '!' :: '>' :: rest => rest
  | _ :: rest => afterComment rest
  | [] => []

/-- What stands behind the end of anything that is passed over as a comment. -/
def afterBogus (cs : List Char) : List Char := (cs.dropWhile (· ≠ '>')).drop 1

/-- A document type, from what stands behind the word for it. -/
def doctype (cs : List Char) : Token × List Char :=
  let inner := (cs.takeWhile (· ≠ '>')).dropWhile isSpace
  let name := nameOf (inner.takeWhile (!isSpace ·))
  (.doctype (name ≠ "html" || !cs.contains '>'), afterBogus cs)

/-- What stands between the brackets of a character section, and the rest. -/
def characterSection : List Char → List Char × List Char
  | ']' :: ']' :: '>' :: rest => ([], rest)
  | c :: rest => let (inner, after) := characterSection rest; (c :: inner, after)
  | [] => ([], [])

/-- The tokens that begin with `<!`, from what stands behind it. -/
def declaration (foreign : Bool) (cs : List Char) : List Token × List Char :=
  match cs with
  | '-' :: '-' :: '>' :: rest => ([.comment], rest)
  | '-' :: '-' :: '-' :: '>' :: rest => ([.comment], rest)
  | '-' :: '-' :: rest => ([.comment], afterComment rest)
  | _ =>
    if startsWith "doctype" cs then
      let (token, rest) := doctype (cs.drop 7)
      ([token], rest)
    else if foreign && "[CDATA[".toList.isPrefixOf cs then
      let (inner, rest) := characterSection (cs.drop 7)
      (inner.map .char, rest)
    else ([.comment], afterBogus cs)

/-- The tokens at the front of markup. -/
def markup (foreign : Bool) : List Char → List Token × List Char
  | [] => ([], [])
  | '&' :: rest =>
    match reference? false rest with
    | some (c, after) => ([.char c], after)
    | none => ([.char '&'], rest)
  | '<' :: '!' :: rest => declaration foreign rest
  | '<' :: '?' :: rest => ([.comment], afterBogus rest)
  | '<' :: '/' :: '>' :: rest => ([], rest)
  | '<' :: '/' :: c :: rest =>
    if c.isAlpha then
      match tag? (c :: rest) with
      | some (name, _, _, after) => ([.closeTag name], after)
      | none => ([], [])
    else ([.comment], afterBogus (c :: rest))
  | '<' :: c :: rest =>
    if c.isAlpha then
      match tag? (c :: rest) with
      | some (name, attrs, selfClosing, after) => ([.openTag name attrs selfClosing], after)
      | none => ([], [])
    else ([.char '<'], c :: rest)
  | c :: rest => ([.char c], rest)

/-- The rest behind the name of a matching end tag, from what stands behind `</`. -/
def afterEndName? (element : String) (cs : List Char) : Option (List Char) :=
  if startsWith element cs then
    match cs.drop element.length with
    | c :: rest => if endsName c then some (c :: rest) else none
    | [] => none
  else none

/-- The end tag of an element, from what stands behind its name. -/
def endTag (element : String) (cs : List Char) : List Token × List Char :=
  match attributes? (cs.length + 1) cs with
  | some (_, _, after) => ([.closeTag element], after)
  | none => ([], [])

/-- The character that stands for one of plain text. -/
def plainChar (c : Char) : Char := if c = '\x00' then Char.ofNat 0xFFFD else c

/-- The tokens at the front of text inside an element. -/
def plain (element : String) (references : Bool) : List Char → List Token × List Char
  | [] => ([], [])
  | '<' :: '/' :: rest =>
    match afterEndName? element rest with
    | some after => endTag element after
    | none => ([.char '<', .char '/'], rest)
  | '&' :: rest =>
    match if references then reference? false rest else none with
    | some (c, after) => ([.char c], after)
    | none => ([.char '&'], rest)
  | c :: rest => ([.char (plainChar c)], rest)

/-- How deep a place in a script is inside a comment with scripts of its own. -/
inductive ScriptDepth where
  | outside
  | comment
  | nested
  deriving DecidableEq

/-- The text of a script up to its end tag, and what stands behind `</script` if the end tag
is there. Each round reads at least one character. -/
def scriptText : (fuel : Nat) → ScriptDepth → List Char → List Char × Option (List Char)
  | 0, _, _ => ([], none)
  | _, _, [] => ([], none)
  | fuel + 1, depth, cs@(c :: rest) =>
    let more (taken : Nat) (depth : ScriptDepth) : List Char × Option (List Char) :=
      let (text, after) := scriptText fuel depth (cs.drop taken)
      ((cs.take taken).map plainChar ++ text, after)
    if depth = .outside && "<!--".toList.isPrefixOf cs then
      if "<!-->".toList.isPrefixOf cs then more 5 .outside
      else if "<!--->".toList.isPrefixOf cs then more 6 .outside
      else more 4 .comment
    else if depth ≠ .outside && "-->".toList.isPrefixOf cs then more 3 .outside
    else if depth = .comment && c = '<' && (afterEndName? "script" rest).isSome then
      more 7 .nested
    else if c = '<' && rest.head? = some '/' then
      match afterEndName? "script" (rest.drop 1) with
      | some after => if depth = .nested then more 8 .comment else ([], some after)
      | none => more 1 depth
    else more 1 depth

/-- The tokens of a script. -/
def script (cs : List Char) : List Token × List Char :=
  let (text, after) := scriptText cs.length .outside cs
  match after with
  | some after =>
    let (last, rest) := endTag "script" after
    (text.map .char ++ last, rest)
  | none => (text.map .char, [])

/-- The tokens at the front of a text and the rest; at the end of the text nothing but the
token that says so. -/
def next (kind : TextKind) (foreign : Bool) (cs : List Char) : List Token × List Char :=
  if cs.isEmpty then ([.done], [])
  else match kind with
    | .markup => markup foreign cs
    | .plainWithReferences element => plain element true cs
    | .plain element => plain element false cs
    | .script => script cs
    | .rest => (cs.map fun c => .char (plainChar c), [])

end Scanner

/-- The characters of a text with its line ends made one and a mark of byte order dropped. -/
def inputChars (s : String) : List Char :=
  let rec unify : List Char → List Char
    | '\r' :: '\n' :: rest => '\n' :: unify rest
    | '\r' :: rest => '\n' :: unify rest
    | c :: rest => c :: unify rest
    | [] => []
  match unify s.toList with
  | '\uFEFF' :: rest => rest
  | cs => cs

end PageCompiler.Html
