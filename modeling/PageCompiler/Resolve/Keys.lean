import PageCompiler.Document.Walk
import PageCompiler.Text.Casing

/-!
# Keys of elements

Every element of a page needs a key that no other element has. It is made from the key the
author gave, or the name, or the type, in dashed form. Of the elements that share this base
the first one keeps it; the others get a number behind it, counted from one and skipping
what is taken.

A ledger remembers the keys that are taken and, for each base, how often it was counted and
which number comes next.
-/

namespace PageCompiler

/-- What a ledger knows about a base. -/
structure KeyUse where
  /-- How many elements of the counted trees have the base. -/
  count : Nat := 0
  /-- The number to try next; zero while the base itself is still to be tried. -/
  next : Nat := 0
  deriving DecidableEq, Inhabited, Repr

/-- The keys that are taken. -/
structure KeyLedger where
  uses : Dict KeyUse := []
  taken : List String := []
  deriving DecidableEq, Inhabited, Repr

/-- A base with a number behind it. -/
def numbered (base : String) (n : Nat) : String := base ++ "-" ++ toString n

/-- The first number from `n` upwards whose key is not taken, after `fuel` numbers at the
latest. -/
def firstFree (taken : List String) (base : String) : (fuel : Nat) → (n : Nat) → Nat
  | 0, n => n
  | fuel + 1, n => if taken.contains (numbered base n) then firstFree taken base fuel (n + 1) else n

namespace KeyLedger

/-- What is known about a base; nothing yet for a new one. -/
def use (l : KeyLedger) (base : String) : KeyUse := (Dict.get? l.uses base).getD {}

/-- A ledger in which the listed keys are taken, so that numbering of them starts at one. -/
def seeded (keys : List String) : KeyLedger where
  uses := keys.foldl (fun uses key => Dict.insert uses key ⟨1, 1⟩) []
  taken := keys

/-- Count one element with a base. -/
def count (l : KeyLedger) (base : String) : KeyLedger :=
  { l with uses := Dict.insert l.uses base { l.use base with count := (l.use base).count + 1 } }

/-- Take a key as it is. -/
def reserve (l : KeyLedger) (key : String) : KeyLedger where
  uses := Dict.insert l.uses key { l.use key with next := 1 }
  taken := key :: l.taken

/-- Take the first free key of a base: the base itself, else the base with a number. Among
more numbers than there are taken keys, one is free. -/
def claim (l : KeyLedger) (base : String) : String × KeyLedger :=
  let use := l.use base
  if use.next = 0 && !l.taken.contains base then
    (base, ⟨Dict.insert l.uses base { use with next := 1 }, base :: l.taken⟩)
  else
    let n := firstFree l.taken base l.taken.length (max use.next 1)
    let key := numbered base n
    (key, ⟨Dict.insert l.uses base { use with next := n + 1 }, key :: l.taken⟩)

end KeyLedger

/-- The base of an element's key. -/
def Element.baseKey (e : Element) : String :=
  dashCase <|
    if e.key.isEmpty then
      match e.name with
      | some name => if name.isEmpty then e.elementType else name
      | none => e.elementType
    else e.key

/-- Count the elements of a list. -/
def countElements (l : KeyLedger) (elements : List Element) : KeyLedger :=
  elements.foldl (fun l e => l.count e.baseKey) l

/-- Give an element a key of its own. -/
def claimKey (e : Element) : StateM KeyLedger Element := do
  let key ← modifyGet fun l => l.claim e.baseKey
  return { e with key }

/-- Give every element of a tree a key of its own. -/
def Node.claimKeys (node : Node) : StateM KeyLedger Node := node.updateM (.ofElement claimKey)

/-- Give every element of a component a key of its own. -/
def Component.claimKeys (c : Component) : StateM KeyLedger Component :=
  c.updateM (.ofElement claimKey)

/-- Count the elements of a component, then give each of them a key of its own. -/
def Component.assignKeys (c : Component) (l : KeyLedger) : Component × KeyLedger :=
  c.claimKeys.run (countElements l c.elements)

/-- The keys of a tree, in the order of the walk. -/
def Node.keys (node : Node) : List String := node.elements.map (·.key)

end PageCompiler
