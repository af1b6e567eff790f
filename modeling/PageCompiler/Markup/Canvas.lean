import PageCompiler.Markup.Basic
import PageCompiler.Text.Blank

/-!
# Markup under construction

The elements of a page are kept by number while the page is made, because one element can stand
in several places and is still decorated after it was put there. An element is made after
the elements inside it, so the numbers below an element are smaller than its own, and a piece
can be turned into the markup it stands for.
-/

namespace PageCompiler

/-- A piece of markup under construction. -/
inductive Piece where
  | element (id : Nat)
  | text (s : String)
  | raw (s : String)
  | comment (s : String)
  deriving DecidableEq, Inhabited, Repr

/-- An element under construction. -/
structure Tag where
  name : String
  attrs : Dict String := []
  children : List Piece := []
  deriving DecidableEq, Inhabited, Repr

/-- The elements under construction, by number. -/
structure Canvas where
  tags : Array Tag := #[]
  deriving Inhabited, Repr

/-- The element with one more class. A class that is there already is not added again. -/
def Tag.addClass (t : Tag) (name : String) : Tag :=
  let present := (Dict.get? t.attrs "class").getD ""
  let classes := if (blankWords present).contains name then present
    else if present.isEmpty then name
    else present ++ " " ++ name
  { t with attrs := Dict.insert t.attrs "class" classes }

namespace Canvas

/-- Add an element; its number. -/
def create (c : Canvas) (t : Tag) : Nat × Canvas := (c.tags.size, ⟨c.tags.push t⟩)

/-- Change the element with a number. -/
def modify (c : Canvas) (id : Nat) (f : Tag → Tag) : Canvas := ⟨c.tags.modify id f⟩

/-- Put a piece in front of the children of an element. -/
def prepend (c : Canvas) (id : Nat) (piece : Piece) : Canvas :=
  c.modify id fun t => { t with children := piece :: t.children }

/-- Give an element a class. -/
def addClass (c : Canvas) (id : Nat) (name : String) : Canvas := c.modify id (·.addClass name)

/-- The markup of a piece, down to a depth of `fuel` elements. -/
def markupTo (c : Canvas) : (fuel : Nat) → Piece → Markup
  | _, .text s => .text s
  | _, .raw s => .raw s
  | _, .comment s => .comment s
  | 0, .element _ => .raw ""
  | fuel + 1, .element id =>
    match c.tags[id]? with
    | some t => .element t.name t.attrs (t.children.map (c.markupTo fuel))
    | none => .raw ""

/-- The markup that a piece stands for. Numbers get smaller on the way down, so there is no way
longer than the number of elements. -/
def markup (c : Canvas) (piece : Piece) : Markup := c.markupTo c.tags.size piece

/-- The printed form of a piece. -/
def print (c : Canvas) (piece : Piece) : String := (c.markup piece).print

end Canvas

end PageCompiler
