import PageCompiler.Dict

/-!
# Markup

The tree of elements, texts and comments that a page consists of, and how it is printed. In a
text the ampersand and the angle brackets are escaped, in an attribute the ampersand and the
quote. Raw pieces and comments are printed as they stand. Void elements have no end tag, and
nothing inside them is printed.
-/

namespace PageCompiler

/-- A piece of markup. -/
inductive Markup where
  | element (tag : String) (attrs : List (String × String)) (children : List Markup)
  | text (s : String)
  /-- Printed without escaping. -/
  | raw (s : String)
  | comment (s : String)
  deriving BEq, Inhabited, Repr

namespace Markup

/-- The elements without an end tag. -/
def voidTags : List String :=
  ["area", "base", "br", "col", "embed", "hr", "img", "input", "link", "meta", "param",
    "source", "track", "wbr"]

/-- Whether an element has no end tag. -/
def isVoid (tag : String) : Bool := voidTags.contains tag

/-- The written form of a character in a text. -/
def escapeTextChar (c : Char) : List Char :=
  if c = '&' then ['&', 'a', 'm', 'p', ';']
  else if c = '<' then ['&', 'l', 't', ';']
  else if c = '>' then ['&', 'g', 't', ';']
  else [c]

/-- The written form of a character in an attribute. -/
def escapeAttributeChar (c : Char) : List Char :=
  if c = '&' then ['&', 'a', 'm', 'p', ';']
  else if c = '"' then ['&', 'q', 'u', 'o', 't', ';']
  else [c]

/-- The written form of a text. -/
def escapeText (s : String) : String := String.ofList (s.toList.flatMap escapeTextChar)

/-- The written form of the value of an attribute. -/
def escapeAttribute (s : String) : String := String.ofList (s.toList.flatMap escapeAttributeChar)

/-- The start tag of an element. -/
def startTag (tag : String) (attrs : Dict String) : String :=
  "<" ++ tag
    ++ String.join (attrs.map fun a => " " ++ a.1 ++ "=\"" ++ escapeAttribute a.2 ++ "\"") ++ ">"

mutual

/-- The printed form of a piece of markup. -/
def print : Markup → String
  | .text s => escapeText s
  | .raw s => s
  | .comment s => "<!--" ++ s ++ "-->"
  | .element tag attrs children =>
    if isVoid tag then startTag tag attrs
    else startTag tag attrs ++ printAll children ++ "</" ++ tag ++ ">"

/-- The printed forms of several pieces, one behind the other. -/
def printAll : List Markup → String
  | [] => ""
  | piece :: rest => print piece ++ printAll rest

end

end Markup

end PageCompiler
