import PageCompiler.Json.Printer

/-!
# JSON values inside a page

How a value reads when it is put into markup (`Json.text`), and how a path leads into a
value (`Json.at?`).

A whole number below `10 ^ 15` in size has no fraction, whichever way it was written; the
items of an array are joined by commas, nested ones included; an object is compact JSON.
-/

namespace PageCompiler.Json

/-- The text of a number inside a page. -/
def Number.pageText (n : Number) : String :=
  match n with
  | .integer i => toString i
  | .real x =>
    match x.toInt? with
    | some i => if i.natAbs < Nat.pow 10 15 then toString i else n.text
    | none => n.text

mutual

/-- The text of a value inside a page. -/
def text : Json → String
  | .null => ""
  | .bool b => if b then "true" else "false"
  | .number n => n.pageText
  | .string s => s
  | .array items => ",".intercalate (itemTexts items)
  | .object members => compact (.object members)
  | .unreadable => ""

/-- The texts of the items of an array. -/
def itemTexts : List Json → List String
  | [] => []
  | item :: rest => text item :: itemTexts rest

end

/-- The value of decimal digits. -/
def digitsValue (cs : List Char) : Nat := cs.foldl (fun n c => 10 * n + (c.toNat - 48)) 0

/-- The position that a part of a path names: decimal digits, a plus sign may precede them. -/
def position? (s : String) : Option Nat :=
  let digits := match s.toList with
    | '+' :: rest => rest
    | cs => cs
  if digits.isEmpty || !digits.all Char.isDigit then none else some (digitsValue digits)

/-- The value one step into an object or array. -/
def step? (j : Json) (part : String) : Option Json :=
  match j with
  | .object members => members.lookup part
  | .array items => do items[← position? part]?
  | _ => none

/-- The value that a path leads to. -/
def at? (j : Json) (path : List String) : Option Json := path.foldlM step? j

end PageCompiler.Json
