import PageCompiler.Html.Token

/-!
# Document trees

The tree that a text of markup stands for (`Dom`), and the trees under construction
(`DomDraft`): there the elements are numbered, an element lists its children by number, and
elements can still be moved about. Neighbouring pieces of text are one piece.
-/

namespace PageCompiler.Html

/-- A piece of a document. What a `template` element holds is not part of the document. -/
inductive Dom where
  | element (name : String) (attrs : TagAttributes) (children : List Dom)
  | text (s : String)
  | comment
  deriving Inhabited, Repr

/-- The vocabularies that an element can belong to. -/
inductive Vocabulary where
  | html
  | svg
  | math
  deriving DecidableEq, Inhabited, Repr

/-- A child of an element under construction. -/
inductive DraftChild where
  | element (id : Nat)
  | text (s : String)
  | comment
  deriving DecidableEq, Inhabited, Repr

/-- An element under construction. -/
structure DraftElement where
  name : String
  vocabulary : Vocabulary := .html
  attrs : TagAttributes := []
  parent : Option Nat := none
  children : List DraftChild := []
  deriving Inhabited, Repr

/-- Elements under construction by number; the document itself has the number zero. -/
structure DomDraft where
  elements : Array DraftElement := #[{ name := "" }]
  deriving Inhabited

namespace DomDraft

/-- The element with a number. -/
def get (d : DomDraft) (id : Nat) : DraftElement := d.elements.getD id default

/-- Change the element with a number. -/
def modify (d : DomDraft) (id : Nat) (f : DraftElement → DraftElement) : DomDraft :=
  ⟨d.elements.modify id f⟩

/-- Add an element without a place; its number. -/
def create (d : DomDraft) (e : DraftElement) : Nat × DomDraft :=
  (d.elements.size, ⟨d.elements.push e⟩)

/-- A child at the end of a list; text joins the text before it. -/
def joinLast (children : List DraftChild) (child : DraftChild) : List DraftChild :=
  match child, children.getLast? with
  | .text s, some (.text t) => children.dropLast ++ [.text (t ++ s)]
  | _, _ => children ++ [child]

/-- Remember the parent of a child. -/
def adopt (d : DomDraft) (parent : Nat) : DraftChild → DomDraft
  | .element id => d.modify id fun e => { e with parent := some parent }
  | _ => d

/-- Take an element out of its parent. -/
def detach (d : DomDraft) (id : Nat) : DomDraft :=
  match (d.get id).parent with
  | some parent =>
    (d.modify parent fun e => { e with children := e.children.filter (· ≠ .element id) }).modify id
      fun e => { e with parent := none }
  | none => d

/-- Take a child out of its parent, if it is an element. -/
def release (d : DomDraft) : DraftChild → DomDraft
  | .element id => d.detach id
  | _ => d

/-- Put a child at the end of an element. -/
def append (d : DomDraft) (parent : Nat) (child : DraftChild) : DomDraft :=
  let d := d.release child
  (d.modify parent fun e => { e with children := joinLast e.children child }).adopt parent child

/-- Put a child in front of an element that has a parent. -/
def insertBefore (d : DomDraft) (sibling : Nat) (child : DraftChild) : DomDraft :=
  match (d.get sibling).parent with
  | some parent =>
    let d := d.release child
    let put (children : List DraftChild) : List DraftChild :=
      joinLast (children.takeWhile (· ≠ .element sibling)) child
        ++ children.dropWhile (· ≠ .element sibling)
    (d.modify parent fun e => { e with children := put e.children }).adopt parent child
  | none => d

/-- Move all children of one element to the end of another. -/
def moveChildren (d : DomDraft) (source target : Nat) : DomDraft :=
  (d.get source).children.foldl (fun d child => d.append target child)
    (d.modify source fun e => { e with children := [] })

/-- The finished pieces below an element; every child has a parent that was made before it or
moved above it, so `fuel` is the number of elements. -/
def finish (d : DomDraft) : (fuel : Nat) → DraftChild → Dom
  | _, .text s => .text s
  | _, .comment => .comment
  | 0, .element id => .element (d.get id).name (d.get id).attrs []
  | fuel + 1, .element id =>
    let e := d.get id
    if e.name = "template" && e.vocabulary = .html then .element e.name e.attrs []
    else .element e.name e.attrs (e.children.map (d.finish fuel))

/-- The finished pieces of the document. -/
def document (d : DomDraft) : List Dom :=
  (d.get 0).children.map (d.finish d.elements.size)

end DomDraft

end PageCompiler.Html
