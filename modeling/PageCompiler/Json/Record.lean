import PageCompiler.Json.Basic

/-!
# Reading records from JSON

The rules by which documents take their parts out of JSON values.

* A record is an object with named members, or an array with the members in a fixed order
  (`record?`). Unknown members are skipped, a repeated known one is an error. A member is
  required, optional (`null` counts as absent) or has a default (`null` is an error).
* A variant is an object with a name and a content, or an array of just these two
  (`variant?`).
* A tagged record is a record whose name of a kind stands among its members (`tagged?`).
* A word is one of a fixed list of names (`word?`).

A part that has to be set aside before it is known what it stands for is read as a whole, so
it must be readable as a whole. The flag `aside` remembers that a value was set aside: the
name of a kind may then also be given by its position in the list of names.
-/

namespace PageCompiler.Json

/-- The known members of a record by their names; nothing if the value is no record or a
known member is repeated. -/
def record? (names : List String) : Json → Option (List (String × Json))
  | .object members =>
    let known := members.filter fun m => names.contains m.1
    if names.all fun name => known.countP (·.1 = name) ≤ 1 then some known else none
  | .array items => if items.length ≤ names.length then some (names.zip items) else none
  | _ => none

/-- Read a member that has to be there. -/
def required {α : Type} (members : List (String × Json)) (name : String)
    (read : Json → Option α) : Option α := do
  read (← members.lookup name)

/-- Read a member that may be absent or `null`. -/
def optional {α : Type} (members : List (String × Json)) (name : String)
    (read : Json → Option α) : Option (Option α) :=
  match members.lookup name with
  | none | some .null => some none
  | some value => (read value).map some

/-- Read a member that has a default. -/
def defaulted {α : Type} (members : List (String × Json)) (name : String) (default : α)
    (read : Json → Option α) : Option α :=
  match members.lookup name with
  | none => some default
  | some value => read value

/-- One of a list of names: a text, or an object whose only member has that name and the
value `null`. -/
def word? (names : List String) : Json → Option String
  | .string s => if names.contains s then some s else none
  | .object [(s, .null)] => if names.contains s then some s else none
  | _ => none

/-- A variant: its name, its content, and whether the content had been set aside. A content
that is written before the name is set aside until the name is known. -/
def variant? (names : List String) (aside : Bool) : Json → Option (String × Json × Bool)
  | .object members =>
    let parts := members.filter fun m => m.1 = "type" || m.1 = "content"
    match parts with
    | [("type", name), ("content", content)] => do some (← word? names name, content, aside)
    | [("content", content), ("type", name)] =>
      if content.readable then do some (← word? names name, content, true) else none
    | _ => none
  | .array [name, content] => do some (← word? names name, content, aside)
  | _ => none

/-- The name of a kind, or its position in the list of names if the value was set aside. -/
def kindName? (names : List String) (aside : Bool) : Json → Option String
  | .string s => if names.contains s then some s else none
  | .number (.integer n) => if aside && 0 ≤ n then names[n.toNat]? else none
  | _ => none

/-- A record whose kind stands among its members, or first in the array: the kind and the
record without it. -/
def tagged? (tag : String) (names : List String) (aside : Bool) : Json → Option (String × Json)
  | .object members =>
    let rest := members.filter (·.1 ≠ tag)
    match members.filter (·.1 = tag) with
    | [(_, name)] =>
      if membersReadable rest then do some (← kindName? names aside name, .object rest) else none
    | _ => none
  | .array (name :: rest) =>
    if itemsReadable rest then do some (← kindName? names aside name, .array rest) else none
  | _ => none

/-- Read every item of an array. -/
def items? {α : Type} (read : Json → Option α) (j : Json) : Option (List α) := do
  (← j.asArray?).mapM read

/-- Read a table: every member of an object; the last of a name counts. -/
def table? {α : Type} (read : Json → Option α) : Json → Option (Dict α)
  | .object members => do
    some (Dict.ofList (← members.mapM fun m => do some (m.1, ← read m.2)))
  | _ => none

/-! ## Writing -/

/-- A member that is always written. -/
def field (name : String) (value : Json) : List (String × Json) := [(name, value)]

/-- A member that is left out when there is nothing to write. -/
def field? {α : Type} (name : String) (write : α → Json) : Option α → List (String × Json)
  | none => []
  | some value => [(name, write value)]

/-- A flag that is written only when it is set. -/
def flag (name : String) (value : Bool) : List (String × Json) :=
  if value then [(name, .bool true)] else []

/-- A list that is left out when it is empty. -/
def fieldItems (name : String) (items : List Json) : List (String × Json) :=
  if items.isEmpty then [] else [(name, .array items)]

/-- A table that is left out when it is empty. -/
def fieldTable (name : String) (members : List (String × Json)) : List (String × Json) :=
  if members.isEmpty then [] else [(name, .object members)]

/-- A variant: its name, then its content. -/
def variant (name : String) (content : Json) : Json :=
  .object [("type", .string name), ("content", content)]

/-- A list of texts. -/
def strings (items : List String) : Json := .array (items.map .string)

/-- A table of texts. -/
def stringTable (d : Dict String) : Json := .object (d.map fun entry => (entry.1, .string entry.2))

end PageCompiler.Json
