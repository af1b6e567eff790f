import PageCompiler.Json.Basic

/-!
# Printing JSON

Two layouts of one value: `compact` has no white space at all, `pretty` puts every item and
member on a line of its own, indented by two spaces a level, and writes empty containers as
a pair of brackets. Members are printed in the order they are listed.

In a text only the quote, the backslash and the control characters below the space are
escaped; everything else is written as it is.
-/

namespace PageCompiler.Json

/-- The text of a number. -/
def Number.text : Number → String
  | .integer n => toString n
  | .real x => x.text

/-- A lower-case hexadecimal digit. -/
def hexDigit (n : Nat) : Char := if n < 10 then Char.ofNat (48 + n) else Char.ofNat (87 + n)

/-- The written form of one character of a text. -/
def escapeChar (c : Char) : List Char :=
  if c = '"' then ['\\', '"']
  else if c = '\\' then ['\\', '\\']
  else if c = '\x08' then ['\\', 'b']
  else if c = '\x0c' then ['\\', 'f']
  else if c = '\n' then ['\\', 'n']
  else if c = '\r' then ['\\', 'r']
  else if c = '\t' then ['\\', 't']
  else if c.toNat < 32 then ['\\', 'u', '0', '0', hexDigit (c.toNat / 16), hexDigit (c.toNat % 16)]
  else [c]

/-- A text in quotes. -/
def quote (s : String) : String :=
  "\"" ++ String.ofList (s.toList.flatMap escapeChar) ++ "\""

/-- Text between an opening and a closing character. -/
def bracket (opening closing : Char) (inner : String) : String :=
  String.singleton opening ++ inner ++ String.singleton closing

mutual

/-- The value on one line, without white space. -/
def compact : Json → String
  | .null => "null"
  | .bool b => if b then "true" else "false"
  | .number n => n.text
  | .string s => quote s
  | .array items => bracket '[' ']' (",".intercalate (compactItems items))
  | .object members => bracket '{' '}' (",".intercalate (compactMembers members))
  | .unreadable => "null"

/-- The items of an array, each on its own. -/
def compactItems : List Json → List String
  | [] => []
  | item :: rest => compact item :: compactItems rest

/-- The members of an object, each on its own. -/
def compactMembers : List (String × Json) → List String
  | [] => []
  | (name, value) :: rest => (quote name ++ ":" ++ compact value) :: compactMembers rest

end

/-- The start of a new line at a given level. -/
def newline (level : Nat) : String := "\n" ++ String.ofList (List.replicate (2 * level) ' ')

/-- A container whose entries stand on lines of their own; without entries, just its brackets. -/
def block (opening closing : Char) (level : Nat) (entries : List String) : String :=
  if entries.isEmpty then bracket opening closing ""
  else bracket opening closing
    (newline (level + 1) ++ ("," ++ newline (level + 1)).intercalate entries ++ newline level)

mutual

/-- The value over several lines, inside a container of the given level. -/
def prettyAt (level : Nat) : Json → String
  | .null => "null"
  | .bool b => if b then "true" else "false"
  | .number n => n.text
  | .string s => quote s
  | .array items => block '[' ']' level (prettyItems (level + 1) items)
  | .object members => block '{' '}' level (prettyMembers (level + 1) members)
  | .unreadable => "null"

/-- The items of an array, each on its own. -/
def prettyItems (level : Nat) : List Json → List String
  | [] => []
  | item :: rest => prettyAt level item :: prettyItems level rest

/-- The members of an object, each on its own. -/
def prettyMembers (level : Nat) : List (String × Json) → List String
  | [] => []
  | (name, value) :: rest =>
    (quote name ++ ": " ++ prettyAt level value) :: prettyMembers level rest

end

/-- The value over several lines. -/
def pretty (j : Json) : String := prettyAt 0 j

end PageCompiler.Json
