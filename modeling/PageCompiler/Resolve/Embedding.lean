import PageCompiler.Document.Build
import PageCompiler.Document.Transform
import PageCompiler.Html.Modes

/-!
# Embedded markup

An `html-node` element carries a text of markup in its attribute `html`. The text is read as a
document, and what the document holds becomes the children of the element, so that the later
steps see one uniform tree. The outer elements that every document has are left out; so are
comments and blank texts. Scripts and style sheets keep their text as it stands.
-/

namespace PageCompiler

open Html

/-- The type of elements with embedded markup. -/
def embeddingType : String := "html-node"

/-- The text directly inside an element. -/
def domText : List Dom → String
  | [] => ""
  | .text s :: rest => s ++ domText rest
  | _ :: rest => domText rest

mutual

/-- The node that a piece of a document stands for. -/
def Html.Dom.toNode? : Dom → Option Node
  | .text s => if isBlank s then none else some (.text s)
  | .comment => none
  | .element name attrs children =>
    let inner := if name = "script" || name = "style" then [.raw (domText children)]
      else domNodes children
    some (.element {
      key := name
      elementType := name
      name := some name
      attrs := Dict.ofList (attrs.map fun a => (a.1, .text a.2))
      children := inner })

/-- The nodes that the pieces of a document stand for. -/
def domNodes : List Dom → List Node
  | [] => []
  | piece :: rest => piece.toNode?.toList ++ domNodes rest

end

mutual

/-- The nodes of a piece of a document, without the outer elements that every document has. -/
def Html.Dom.contents : Dom → List Node
  | .element name attrs children =>
    if name = "html" || name = "head" || name = "body" then domContents children
    else (Dom.toNode? (.element name attrs children)).toList
  | .text s => (Dom.toNode? (.text s)).toList
  | .comment => []

/-- The nodes of the pieces of a document, without the outer elements. -/
def domContents : List Dom → List Node
  | [] => []
  | piece :: rest => piece.contents ++ domContents rest

end

/-- The nodes that a text of markup stands for. -/
def parseFragment (html : String) : List Node := domContents (parseDocument html)

/-- The text of markup that an element carries, if it carries any. -/
def Element.embeddedHtml? (e : Element) : Option String :=
  if e.elementType = embeddingType then
    match Dict.get? e.attrs "html" with
    | some (.constant (.text html)) => some html
    | some (.raw html) => some html
    | _ => none
  else none

/-- Replace embedded markup by the nodes it stands for. -/
def Element.embed (e : Element) : Element :=
  match e.embeddedHtml? with
  | some html => { e with attrs := Dict.erase e.attrs "html", children := parseFragment html }
  | none => e

/-- The length of all embedded markup in a tree. -/
def Node.embeddedLength (node : Node) : Nat :=
  total (node.elements.map fun e => (e.embeddedHtml?.getD "").length)

/-- Replace all embedded markup in a tree. Each element of the markup takes three characters at
least and adds two levels at most, and markup inside markup is shorter than what it stands
in, so the length of the markup bounds the growth of the depth. -/
def Node.embed (node : Node) : Except Diagnostic Node :=
  node.transform Element.embed (node.depth + 8 * node.embeddedLength + 64)

end PageCompiler
