import PageCompiler.Dict
import PageCompiler.Binary64

/-!
# JSON values

The JSON values that documents are read from and written to. A value read from a text keeps
the members of an object as they were written, repeated names included: a record refuses a
repeated member, a table lets the last one win, and a reader can only tell once it knows
which of the two it reads. `canonical` is the plain value: members in ascending order, the
last of each name.

A piece of a text may be well formed and yet denote no value (a number beyond the finite
numbers, half of a surrogate pair, nesting beyond the limit). It becomes `unreadable`, so
that members nobody asks for are skipped without a complaint; `readable` says that a value
has no such piece.
-/

namespace PageCompiler

/-- A number: a whole number of 64 bits stays one, all others are binary floating point. -/
inductive Json.Number where
  /-- A whole number between `-2 ^ 63` and `2 ^ 64 - 1`. -/
  | integer (n : Int)
  /-- A finite binary floating-point number. -/
  | real (x : Binary64)
  deriving DecidableEq, Inhabited, Repr

/-- A JSON value, or the trace of one as it was written. -/
inductive Json where
  | null
  | bool (b : Bool)
  | number (n : Json.Number)
  | string (s : String)
  | array (items : List Json)
  | object (members : List (String × Json))
  /-- A well-formed piece of a text that denotes no value. -/
  | unreadable
  deriving BEq, Inhabited, Repr

namespace Json

/-- The number as binary floating point, rounded if it is a large whole number. -/
def Number.toReal : Number → Binary64
  | .integer n => .ofInt n
  | .real x => x

mutual

/-- How deeply arrays and objects are nested. -/
def depth : Json → Nat
  | .array items => itemsDepth items + 1
  | .object members => membersDepth members + 1
  | _ => 0

/-- The depth of the deepest item. -/
def itemsDepth : List Json → Nat
  | [] => 0
  | item :: rest => max (depth item) (itemsDepth rest)

/-- The depth of the deepest member. -/
def membersDepth : List (String × Json) → Nat
  | [] => 0
  | (_, value) :: rest => max (depth value) (membersDepth rest)

end

mutual

/-- Whether every piece of the text denoted a value. -/
def readable : Json → Bool
  | .unreadable => false
  | .array items => itemsReadable items
  | .object members => membersReadable members
  | _ => true

/-- Whether every item is readable. -/
def itemsReadable : List Json → Bool
  | [] => true
  | item :: rest => readable item && itemsReadable rest

/-- Whether every member is readable. -/
def membersReadable : List (String × Json) → Bool
  | [] => true
  | (_, value) :: rest => readable value && membersReadable rest

end

mutual

/-- The value itself: members in ascending order of their names, the last of each name. -/
def canonical : Json → Json
  | .array items => .array (itemsCanonical items)
  | .object members => .object (Dict.ofList (membersCanonical members))
  | other => other

/-- The values of a list of items. -/
def itemsCanonical : List Json → List Json
  | [] => []
  | item :: rest => canonical item :: itemsCanonical rest

/-- The values of a list of members, still in the order they were written. -/
def membersCanonical : List (String × Json) → List (String × Json)
  | [] => []
  | (name, value) :: rest => (name, canonical value) :: membersCanonical rest

end

/-- The plain value of a piece of text, if all of it denotes one. -/
def value? (j : Json) : Option Json := if j.readable then some j.canonical else none

/-! ## Scalars -/

/-- The text, of a text. -/
def asString? : Json → Option String
  | .string s => some s
  | _ => none

/-- The truth value, of a truth value. -/
def asBool? : Json → Option Bool
  | .bool b => some b
  | _ => none

/-- The number in binary floating point, of a number. -/
def asReal? : Json → Option Binary64
  | .number n => some n.toReal
  | _ => none

/-- The items, of an array. -/
def asArray? : Json → Option (List Json)
  | .array items => some items
  | _ => none

/-- A member of an object; nothing for a value of another kind. -/
def member? (j : Json) (name : String) : Option Json :=
  match j with
  | .object members => members.lookup name
  | _ => none

end Json

end PageCompiler
