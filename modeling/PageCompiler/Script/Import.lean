import PageCompiler.Script.Lexeme

/-!
# Import declarations

`importSource` writes a declaration down from names and a path, just as they are.
`declaration?` reads one, and `ImportDeclaration.text` is its one layout: the path stands in
double quotes, and a semicolon ends the declaration.
-/

namespace PageCompiler.Script

/-- The text of an import declaration. Names and path are put in without any escaping. -/
def importSource (default : Option String) (named : List String) (path : String) : String :=
  let block := if named.isEmpty then [] else ["\x7b " ++ ", ".intercalate named ++ " \x7d"]
  let specifiers := default.toList ++ block
  if specifiers.isEmpty then "import '" ++ path ++ "'"
  else "import " ++ ", ".intercalate specifiers ++ " from '" ++ path ++ "'"

/-! ## Reading -/

/-- The name under which a module offers something. -/
inductive ExportName where
  | word (s : String)
  | quoted (value : String)
  deriving DecidableEq, Inhabited, Repr

/-- What a declaration binds. -/
inductive Specifier where
  | default (binding : String)
  | everything (binding : String)
  | named (typeOnly : Bool) (name : ExportName) (binding : String)
  deriving DecidableEq, Inhabited, Repr

/-- An import declaration; without specifiers it only runs a module. -/
structure ImportDeclaration where
  typeOnly : Bool := false
  specifiers : Option (List Specifier) := none
  path : String
  deriving DecidableEq, Inhabited, Repr

/-- A word that can be bound. -/
def binding? (s : String) : Option String := if reservedWords.contains s then none else some s

/-- One specifier from the symbols between two commas. -/
def namedSpecifier? : List Symbol → Option Specifier
  | [.word "type", .word "as", .word "as", .word b] => do
    some (.named true (.word "as") (← binding? b))
  | [.word "type", .word "as"] => some (.named true (.word "as") "as")
  | [.word "type", .word n] => do some (.named true (.word n) (← binding? n))
  | [.word "type", .word n, .word "as", .word b] => do
    some (.named true (.word n) (← binding? b))
  | [.word "type", .quoted n, .word "as", .word b] => do
    some (.named true (.quoted n) (← binding? b))
  | [.word n] => do some (.named false (.word n) (← binding? n))
  | [.word n, .word "as", .word b] => do some (.named false (.word n) (← binding? b))
  | [.quoted n, .word "as", .word b] => do some (.named false (.quoted n) (← binding? b))
  | _ => none

/-- The named specifiers, from what stands behind the opening brace; also what stands behind
the closing one. The current specifier is collected in `current`, the last symbol first. -/
def namedSpecifiers? (current : List Symbol) :
    List Lexeme → Option (List Specifier × List Lexeme)
  | [] => none
  | ⟨.mark ",", _⟩ :: rest => do
    let specifier ← namedSpecifier? current.reverse
    let (more, after) ← namedSpecifiers? [] rest
    some (specifier :: more, after)
  | ⟨.mark "\x7d", _⟩ :: rest =>
    if current.isEmpty then some ([], rest)
    else do some ([← namedSpecifier? current.reverse], rest)
  | l :: rest => namedSpecifiers? (l.symbol :: current) rest

/-- A namespace or named specifiers. -/
def block? : List Lexeme → Option (List Specifier × List Lexeme)
  | ⟨.mark "*", _⟩ :: ⟨.word "as", _⟩ :: ⟨.word b, _⟩ :: rest => do
    some ([.everything (← binding? b)], rest)
  | ⟨.mark "\x7b", _⟩ :: rest => namedSpecifiers? [] rest
  | _ => none

/-- The path of a declaration, behind its specifiers. -/
def fromPath? : List Lexeme → Option (String × List Lexeme)
  | ⟨.word "from", _⟩ :: ⟨.quoted path, _⟩ :: rest => some (path, rest)
  | _ => none

/-- The specifiers and the path of a declaration. -/
def clause? (typeOnly : Bool) (ls : List Lexeme) : Option (ImportDeclaration × List Lexeme) :=
  match ls with
  | ⟨.word b, _⟩ :: ⟨.mark ",", _⟩ :: rest => do
    let b ← binding? b
    let (specifiers, rest) ← block? rest
    let (path, rest) ← fromPath? rest
    some (⟨typeOnly, some (.default b :: specifiers), path⟩, rest)
  | ⟨.word b, _⟩ :: rest => do
    let b ← binding? b
    let (path, rest) ← fromPath? rest
    some (⟨typeOnly, some [.default b], path⟩, rest)
  | _ => do
    let (specifiers, rest) ← block? ls
    let (path, rest) ← fromPath? rest
    some (⟨typeOnly, some specifiers, path⟩, rest)

/-- A declaration, from what stands behind the word that begins it. -/
def declaration? (ls : List Lexeme) : Option (ImportDeclaration × List Lexeme) :=
  match ls with
  | ⟨.quoted path, _⟩ :: rest => some ({ path }, rest)
  | ⟨.word "type", _⟩ :: ⟨.word "from", _⟩ :: ⟨.word "from", _⟩ :: _ => clause? true (ls.drop 1)
  | ⟨.word "type", _⟩ :: ⟨.word "from", _⟩ :: _ => clause? false ls
  | ⟨.word "type", _⟩ :: ⟨.mark ",", _⟩ :: _ => clause? false ls
  | ⟨.word "type", _⟩ :: rest => clause? true rest
  | _ => clause? false ls

/-! ## Layout -/

/-- The written form of a character in double quotes. -/
def escapeChar (c : Char) : List Char :=
  if c = '"' then ['\\', '"']
  else if c = '\\' then ['\\', '\\']
  else if c = '\n' then ['\\', 'n']
  else if c = '\r' then ['\\', 'r']
  else if c = '\x08' then ['\\', 'b']
  else if c = '\x0b' then ['\\', 'v']
  else if c = '\x0c' then ['\\', 'f']
  else if c = '\x00' then ['\\', '0']
  else if c = '\x07' then ['\\', 'x', '0', '7']
  else if c = '\x1b' then ['\\', 'x', '1', 'B']
  else if c = '\xa0' then ['\\', 'x', 'A', '0']
  else if c = '\u2028' then ['\\', 'u', '2', '0', '2', '8']
  else if c = '\u2029' then ['\\', 'u', '2', '0', '2', '9']
  else [c]

/-- A text in double quotes. -/
def inQuotes (s : String) : String := "\"" ++ String.ofList (s.toList.flatMap escapeChar) ++ "\""

/-- The written form of the name under which a module offers something. -/
def ExportName.text : ExportName → String
  | .word s => s
  | .quoted value => inQuotes value

/-- The written form of a named specifier. -/
def namedText (typeOnly : Bool) (name : ExportName) (binding : String) : String :=
  (if typeOnly then "type " else "")
    ++ (if name = .word binding then binding else name.text ++ " as " ++ binding)

/-- The written form of a list of specifiers: what is bound by itself, then what stands in
braces. -/
def specifiersText (specifiers : List Specifier) : String :=
  let single := specifiers.filterMap fun s =>
    match s with
    | .default b => some b
    | .everything b => some ("* as " ++ b)
    | .named .. => none
  let named := specifiers.filterMap fun s =>
    match s with
    | .named typeOnly name binding => some (namedText typeOnly name binding)
    | _ => none
  let block := if named.isEmpty then [] else ["\x7b " ++ ", ".intercalate named ++ " \x7d"]
  if specifiers.isEmpty then "\x7b\x7d" else ", ".intercalate (single ++ block)

/-- The written form of a declaration. -/
def ImportDeclaration.text (d : ImportDeclaration) : String :=
  let clause := match d.specifiers with
    | some specifiers => specifiersText specifiers ++ " from "
    | none => ""
  "import " ++ (if d.typeOnly then "type " else "") ++ clause ++ inQuotes d.path ++ ";"

end PageCompiler.Script
