import PageCompiler.Script.Identifier
import PageCompiler.Text.Blank

/-!
# Lexemes of a script

A script is read as words, quoted texts and marks. White space only separates them, but a line
end in front of a lexeme can end a statement, so each lexeme knows whether one is there.
-/

namespace PageCompiler.Script

/-- What a script is made of. -/
inductive Symbol where
  | word (s : String)
  | quoted (value : String)
  | mark (s : String)
  deriving DecidableEq, Inhabited, Repr

/-- A symbol, and whether a line ends before it. -/
structure Lexeme where
  symbol : Symbol
  afterLineEnd : Bool
  deriving DecidableEq, Inhabited, Repr

/-- The characters that end a line. -/
def isLineEnd (c : Char) : Bool := c = '\n' || c = '\r' || c = '\u2028' || c = '\u2029'

/-- The characters that only separate symbols. -/
def isScriptSpace (c : Char) : Bool := (isBlankChar c && c.toNat ≠ 0x85) || c = '\uFEFF'

/-- The value of hexadecimal digits. -/
def hexValue? (cs : List Char) : Option Nat :=
  if cs.isEmpty then none
  else cs.foldlM (fun n c =>
    if c.isDigit then some (16 * n + (c.toNat - 48))
    else if 'a' ≤ c && c ≤ 'f' then some (16 * n + (c.toNat - 87))
    else if 'A' ≤ c && c ≤ 'F' then some (16 * n + (c.toNat - 55))
    else none) 0

/-- The character with a code, if there is one. -/
def charOfCode? (n : Nat) : Option Char :=
  if h : n.isValidChar then some (Char.ofNatAux n h) else none

/-- The character that an escape stands for, if any, from what stands behind the backslash, and
the rest. -/
def escape? : List Char → Option (List Char × List Char)
  | 'n' :: rest => some (['\n'], rest)
  | 't' :: rest => some (['\t'], rest)
  | 'r' :: rest => some (['\r'], rest)
  | 'b' :: rest => some (['\x08'], rest)
  | 'f' :: rest => some (['\x0c'], rest)
  | 'v' :: rest => some (['\x0b'], rest)
  | 'x' :: a :: b :: rest => do some ([← charOfCode? (← hexValue? [a, b])], rest)
  | 'u' :: '{' :: rest => do
    let digits := rest.takeWhile (· ≠ '}')
    some ([← charOfCode? (← hexValue? digits)], rest.drop (digits.length + 1))
  | 'u' :: a :: b :: c :: d :: rest => do some ([← charOfCode? (← hexValue? [a, b, c, d])], rest)
  | '\r' :: '\n' :: rest => some ([], rest)
  | c :: rest =>
    if isLineEnd c then some ([], rest)
    else if c = '0' && !(rest.head?.any Char.isDigit) then some (['\x00'], rest)
    else if c.isDigit || c = 'x' || c = 'u' then none
    else some ([c], rest)
  | [] => none

/-- The value of a quoted text and the rest behind the closing quote. Each round reads at least
one character. -/
def quotedValue? (quote : Char) : (fuel : Nat) → List Char → Option (List Char × List Char)
  | 0, _ => none
  | _, [] => none
  | fuel + 1, c :: rest => do
    if c = quote then some ([], rest)
    else if c = '\n' || c = '\r' then none
    else if c = '\\' then
      let (value, after) ← escape? rest
      let (more, after) ← quotedValue? quote fuel after
      some (value ++ more, after)
    else
      let (more, after) ← quotedValue? quote fuel rest
      some (c :: more, after)

/-- The marks between words: punctuation and operators, a longer one before those it begins
with. -/
def marks : List String := [
  ">>>", "===", "!==", "**", "&&", "||", "??", "<<", ">>", "<=", ">=", "==", "!=", "\x7b", "\x7d",
  ",", ";", "*", "<", ">", "+", "-", "%", "&", "|", "^"]

/-- The longest mark at the start of a text, and the rest. -/
def mark? (cs : List Char) : Option (String × List Char) :=
  (marks.find? fun m => m.toList.isPrefixOf cs).map fun m => (m, cs.drop m.length)

/-- The lexemes of a script. Each round reads at least one character. -/
def lexemes? : (fuel : Nat) → (afterLineEnd : Bool) → List Char → Option (List Lexeme)
  | 0, _, _ => none
  | _, _, [] => some []
  | fuel + 1, afterLineEnd, c :: rest => do
    if isScriptSpace c then lexemes? fuel (afterLineEnd || isLineEnd c) rest
    else if isIdentifierStart c then
      let word := c :: rest.takeWhile isIdentifierPart
      let more ← lexemes? fuel false (rest.dropWhile isIdentifierPart)
      some (⟨.word (String.ofList word), afterLineEnd⟩ :: more)
    else if c = '"' || c = '\'' then
      let (value, after) ← quotedValue? c rest.length rest
      let more ← lexemes? fuel false after
      some (⟨.quoted (String.ofList value), afterLineEnd⟩ :: more)
    else
      let (m, after) ← mark? (c :: rest)
      let more ← lexemes? fuel false after
      some (⟨.mark m, afterLineEnd⟩ :: more)

/-- Words that name nothing. -/
def reservedWords : List String := [
  "await", "break", "case", "catch", "class", "const", "continue", "debugger", "default",
  "delete", "do", "else", "enum", "export", "extends", "false", "finally", "for", "function",
  "if", "import", "in", "instanceof", "new", "null", "return", "super", "switch", "this",
  "throw", "true", "try", "typeof", "var", "void", "while", "with"]

end PageCompiler.Script
