import PageCompiler.Json.Basic

/-!
# Reading JSON

`ofText?` reads one value from a text, with nothing but white space around it. It gives
nothing for a text that is not well formed: a leading zero, a trailing comma, a control
character inside a text, anything left over.

A number is read as a significand of at most 64 bits and a power of ten. Digits of the whole
part that no longer fit raise the power of ten, digits of the fraction that no longer fit are
dropped. Written without fraction and exponent, a number in the 64-bit ranges stays whole;
minus zero is the floating-point one.

Pieces that are well formed but denote no value become `unreadable`: a number beyond the
finite ones, a text with half of a surrogate pair (as a name, it takes its whole object with
it), and a container inside `maxDepth` others.
-/

namespace PageCompiler.Json

/-- The most containers that may stand inside one another. -/
def maxDepth : Nat := 127

/-- White space between the tokens. -/
def isBlank (c : Char) : Bool := c = ' ' || c = '\n' || c = '\t' || c = '\r'

/-- Skip white space. -/
def skipBlank (cs : List Char) : List Char := cs.dropWhile isBlank

/-! ## Numbers -/

/-- The value of a decimal digit. -/
def digit? (c : Char) : Option Nat :=
  if '0' ≤ c && c ≤ '9' then some (c.toNat - 48) else none

/-- Whether a text goes on with a digit. -/
def startsWithDigit : List Char → Bool
  | c :: _ => (digit? c).isSome
  | [] => false

/-- The number of digits at the start, and what follows them. -/
def skipDigits : List Char → Nat × List Char
  | [] => (0, [])
  | c :: rest =>
    if (digit? c).isSome then
      let (n, after) := skipDigits rest
      (n + 1, after)
    else (0, c :: rest)

/-- Significands stay below this bound. -/
def significandBound : Nat := Nat.pow 2 64

/-- Digits of the whole part: the significand, the number of digits that did not fit, and
what follows. -/
def wholeDigits (significand : Nat) : List Char → Nat × Nat × List Char
  | [] => (significand, 0, [])
  | c :: rest =>
    match digit? c with
    | none => (significand, 0, c :: rest)
    | some d =>
      if significand * 10 + d < significandBound then wholeDigits (significand * 10 + d) rest
      else
        let (dropped, after) := skipDigits (c :: rest)
        (significand, dropped, after)

/-- Digits of the fraction: the significand, the number of digits it took, and what follows. -/
def fractionDigits (significand : Nat) (places : Nat) : List Char → Nat × Nat × List Char
  | [] => (significand, places, [])
  | c :: rest =>
    match digit? c with
    | none => (significand, places, c :: rest)
    | some d =>
      if significand * 10 + d < significandBound then
        fractionDigits (significand * 10 + d) (places + 1) rest
      else (significand, places, (skipDigits rest).2)

/-- The number that a run of digits denotes, and what follows. -/
def naturalDigits (value : Nat) : List Char → Nat × List Char
  | [] => (value, [])
  | c :: rest =>
    match digit? c with
    | none => (value, c :: rest)
    | some d => naturalDigits (value * 10 + d) rest

/-- The number written without fraction and exponent. -/
def Number.ofWhole (negative : Bool) (significand : Nat) : Number :=
  if negative then
    if 0 < significand && significand ≤ Nat.pow 2 63 then .integer (-(significand : Int))
    else .real ⟨true, Binary64.ofNatSize significand⟩
  else .integer significand

/-- The number of a significand and a power of ten; nothing if it is too large. -/
def Number.scaled? (negative : Bool) (significand : Nat) (exponent : Int) : Option Number :=
  (Binary64.scaled? significand exponent).map fun size => .real ⟨negative, size⟩

/-- An exponent, if one follows: its value and what comes after it. -/
def readExponent (cs : List Char) : Option (Option Int × List Char) :=
  match cs with
  | 'e' :: rest | 'E' :: rest =>
    let (negative, digits) :=
      match rest with
      | '-' :: digits => (true, digits)
      | '+' :: digits => (false, digits)
      | digits => (false, digits)
    if startsWithDigit digits then
      let (value, after) := naturalDigits 0 digits
      some (some (if negative then -(value : Int) else value), after)
    else none
  | _ => some (none, cs)

/-- What follows the whole part of a number. -/
def readNumberTail (negative : Bool) (significand dropped : Nat) (cs : List Char) :
    Option (Option Number × List Char) :=
  match cs with
  | '.' :: rest =>
    if startsWithDigit rest then do
      let (significand, places, rest) := fractionDigits significand 0 rest
      let (exponent, rest) ← readExponent rest
      let shift : Int := (dropped : Int) - places
      some (Number.scaled? negative significand (shift + exponent.getD 0), rest)
    else none
  | _ => do
    let (exponent, rest) ← readExponent cs
    match exponent with
    | some e => some (Number.scaled? negative significand ((dropped : Int) + e), rest)
    | none =>
      if dropped = 0 then some (some (Number.ofWhole negative significand), rest)
      else some (Number.scaled? negative significand dropped, rest)

/-- A number; no number at all if it is well formed but too large. -/
def readNumber (cs : List Char) : Option (Option Number × List Char) :=
  let (negative, digits) :=
    match cs with
    | '-' :: digits => (true, digits)
    | digits => (false, digits)
  match digits with
  | '0' :: rest =>
    if startsWithDigit rest then none else readNumberTail negative 0 0 rest
  | _ =>
    if startsWithDigit digits then
      let (significand, dropped, rest) := wholeDigits 0 digits
      readNumberTail negative significand dropped rest
    else none

/-! ## Texts -/

/-- The value of a hexadecimal digit of either case. -/
def hexValue? (c : Char) : Option Nat :=
  if '0' ≤ c && c ≤ '9' then some (c.toNat - 48)
  else if 'a' ≤ c && c ≤ 'f' then some (c.toNat - 87)
  else if 'A' ≤ c && c ≤ 'F' then some (c.toNat - 55)
  else none

/-- The value of four hexadecimal digits. -/
def hex4? (a b c d : Char) : Option Nat := do
  let a ← hexValue? a
  let b ← hexValue? b
  let c ← hexValue? c
  let d ← hexValue? d
  some (((a * 16 + b) * 16 + c) * 16 + d)

/-- The first halves of surrogate pairs. -/
def isHighSurrogate (n : Nat) : Bool := 0xD800 ≤ n && n < 0xDC00

/-- The second halves of surrogate pairs. -/
def isLowSurrogate (n : Nat) : Bool := 0xDC00 ≤ n && n < 0xE000

/-- The character of a surrogate pair. -/
def joinSurrogates (high low : Nat) : Char :=
  Char.ofNat (0x10000 + (high - 0xD800) * 0x400 + (low - 0xDC00))

/-- The character of a one-letter escape. -/
def simpleEscape? (c : Char) : Option Char :=
  if c = '"' then some '"'
  else if c = '\\' then some '\\'
  else if c = '/' then some '/'
  else if c = 'b' then some '\x08'
  else if c = 'f' then some '\x0c'
  else if c = 'n' then some '\n'
  else if c = 'r' then some '\r'
  else if c = 't' then some '\t'
  else none

/-- The rest of a text up to its closing quote: its characters after those already read (last
one first), nothing if half of a surrogate pair was met. -/
def readText (seen : Option (List Char)) : List Char → Option (Option String × List Char)
  | [] => none
  | '"' :: rest => some (seen.map fun cs => String.ofList cs.reverse, rest)
  | '\\' :: 'u' :: a :: b :: c :: d :: '\\' :: 'u' :: e :: f :: g :: h :: rest =>
    match hex4? a b c d with
    | none => none
    | some high =>
      if isHighSurrogate high then
        match hex4? e f g h with
        | none => none
        | some low =>
          if isLowSurrogate low then readText (seen.map (joinSurrogates high low :: ·)) rest
          else readText none ('\\' :: 'u' :: e :: f :: g :: h :: rest)
      else if isLowSurrogate high then readText none ('\\' :: 'u' :: e :: f :: g :: h :: rest)
      else readText (seen.map (Char.ofNat high :: ·)) ('\\' :: 'u' :: e :: f :: g :: h :: rest)
  | '\\' :: 'u' :: a :: b :: c :: d :: rest =>
    match hex4? a b c d with
    | none => none
    | some n =>
      if isHighSurrogate n || isLowSurrogate n then readText none rest
      else readText (seen.map (Char.ofNat n :: ·)) rest
  | '\\' :: c :: rest =>
    match simpleEscape? c with
    | none => none
    | some e => readText (seen.map (e :: ·)) rest
  | c :: rest => if c.toNat < 32 then none else readText (seen.map (c :: ·)) rest

/-! ## Values -/

/-- Read a fixed word. -/
def readWord (word : List Char) (value : Json) (cs : List Char) : Option (Json × List Char) :=
  if word.isPrefixOf cs then some (value, cs.drop word.length) else none

mutual

/-- One value at the start of a text, inside `depth` containers. -/
def readValue (depth : Nat) : (fuel : Nat) → List Char → Option (Json × List Char)
  | 0, _ => none
  | fuel + 1, cs =>
    match cs with
    | '"' :: rest => do
      let (text, rest) ← readText (some []) rest
      some (text.elim .unreadable .string, rest)
    | '[' :: rest => do
      let (items, rest) ← readItems (depth + 1) fuel true (skipBlank rest)
      some (if depth < maxDepth then .array items else .unreadable, rest)
    | '{' :: rest => do
      let (members, rest) ← readMembers (depth + 1) fuel true (skipBlank rest)
      some (if depth < maxDepth then members.elim .unreadable .object else .unreadable, rest)
    | 'n' :: _ => readWord ['n', 'u', 'l', 'l'] .null cs
    | 't' :: _ => readWord ['t', 'r', 'u', 'e'] (.bool true) cs
    | 'f' :: _ => readWord ['f', 'a', 'l', 's', 'e'] (.bool false) cs
    | _ => do
      let (n, rest) ← readNumber cs
      some (n.elim .unreadable .number, rest)

/-- The items up to the closing bracket; only before the first one it may follow at once. -/
def readItems (depth : Nat) : (fuel : Nat) → (first : Bool) → List Char →
    Option (List Json × List Char)
  | 0, _, _ => none
  | fuel + 1, first, cs =>
    match first, cs with
    | true, ']' :: rest => some ([], rest)
    | _, _ => do
      let (item, rest) ← readValue depth fuel cs
      match skipBlank rest with
      | ']' :: rest => some ([item], rest)
      | ',' :: rest =>
        let (items, rest) ← readItems depth fuel false (skipBlank rest)
        some (item :: items, rest)
      | _ => none

/-- The members up to the closing brace, nothing if a name denotes no text; only before the
first one the brace may follow at once. -/
def readMembers (depth : Nat) : (fuel : Nat) → (first : Bool) → List Char →
    Option (Option (List (String × Json)) × List Char)
  | 0, _, _ => none
  | fuel + 1, first, cs =>
    match first, cs with
    | true, '}' :: rest => some (some [], rest)
    | _, '"' :: rest => do
      let (name, rest) ← readText (some []) rest
      match skipBlank rest with
      | ':' :: rest =>
        let (value, rest) ← readValue depth fuel (skipBlank rest)
        let add (members : Option (List (String × Json))) : Option (List (String × Json)) := do
          some ((← name, value) :: (← members))
        match skipBlank rest with
        | '}' :: rest => some (add (some []), rest)
        | ',' :: rest =>
          let (members, rest) ← readMembers depth fuel false (skipBlank rest)
          some (add members, rest)
        | _ => none
      | _ => none
    | _, _ => none

end

/-- The value written in a text. Every step uses up a character or stands before one that
does, so twice the length is fuel enough. -/
def ofText? (text : String) : Option Json := do
  let cs := text.toList
  let (value, rest) ← readValue 0 (2 * cs.length + 2) (skipBlank cs)
  if (skipBlank rest).isEmpty then some value else none

end PageCompiler.Json
