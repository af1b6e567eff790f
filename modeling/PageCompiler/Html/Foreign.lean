import PageCompiler.Html.Construction

/-!
# Drawings and formulas

The rules for what stands inside `svg` and `math`: names keep the capitals of their vocabulary,
a tag may close itself, and some HTML tags end the vocabulary. Inside certain elements the HTML
rules hold again.
-/

namespace PageCompiler.Html

namespace Build

/-- Attributes of drawings with capitals, in lower case and as they are written. -/
def svgAttributeNames : List (String × String) := [
  "attributeName", "attributeType", "baseFrequency", "baseProfile", "calcMode", "clipPathUnits",
  "diffuseConstant", "edgeMode", "filterUnits", "glyphRef", "gradientTransform",
  "gradientUnits", "kernelMatrix", "kernelUnitLength", "keyPoints", "keySplines", "keyTimes",
  "lengthAdjust", "limitingConeAngle", "markerHeight", "markerUnits", "markerWidth",
  "maskContentUnits", "maskUnits", "numOctaves", "pathLength", "patternContentUnits",
  "patternTransform", "patternUnits", "pointsAtX", "pointsAtY", "pointsAtZ", "preserveAlpha",
  "preserveAspectRatio", "primitiveUnits", "refX", "refY", "repeatCount", "repeatDur",
  "requiredExtensions", "requiredFeatures", "specularConstant", "specularExponent",
  "spreadMethod", "startOffset", "stdDeviation", "stitchTiles", "surfaceScale",
  "systemLanguage", "tableValues", "targetX", "targetY", "textLength", "viewBox", "viewTarget",
  "xChannelSelector", "yChannelSelector", "zoomAndPan"].map fun name => (name.toLower, name)

/-- Elements of drawings with capitals, in lower case and as they are written. -/
def svgElementNames : List (String × String) := [
  "altGlyph", "altGlyphDef", "altGlyphItem", "animateColor", "animateMotion",
  "animateTransform", "clipPath", "feBlend", "feColorMatrix", "feComponentTransfer",
  "feComposite", "feConvolveMatrix", "feDiffuseLighting", "feDisplacementMap",
  "feDistantLight", "feDropShadow", "feFlood", "feFuncA", "feFuncB", "feFuncG", "feFuncR",
  "feGaussianBlur", "feImage", "feMerge", "feMergeNode", "feMorphology", "feOffset",
  "fePointLight", "feSpecularLighting", "feSpotLight", "feTile", "feTurbulence",
  "foreignObject", "glyphRef", "linearGradient", "radialGradient",
  "textPath"].map fun name => (name.toLower, name)

/-- Attributes with a name space of their own, and what they are called inside it. -/
def qualifiedNames : List (String × String) := [
  ("xlink:actuate", "actuate"), ("xlink:arcrole", "arcrole"), ("xlink:href", "href"),
  ("xlink:role", "role"), ("xlink:show", "show"), ("xlink:title", "title"),
  ("xlink:type", "type"), ("xml:lang", "lang"), ("xml:space", "space"), ("xmlns:xlink", "xlink")]

/-- Tags that end a foreign vocabulary. -/
def breakoutNames : List String := [
  "b", "big", "blockquote", "body", "br", "center", "code", "dd", "div", "dl", "dt", "em",
  "embed", "h1", "h2", "h3", "h4", "h5", "h6", "head", "hr", "i", "img", "li", "listing", "menu",
  "meta", "nobr", "ol", "p", "pre", "ruby", "s", "small", "span", "strong", "strike", "sub",
  "sup", "table", "tt", "u", "ul", "var"]

/-- An attribute as its vocabulary writes it. -/
def foreignAttribute (vocabulary : Vocabulary) (a : String × String) : String × String :=
  match qualifiedNames.lookup a.1 with
  | some name => (name, a.2)
  | none =>
    match vocabulary with
    | .svg => ((svgAttributeNames.lookup a.1).getD a.1, a.2)
    | .math => (if a.1 = "definitionurl" then "definitionURL" else a.1, a.2)
    | .html => a

/-- Insert an element of a vocabulary; left open unless the tag closes itself. -/
def openForeign (vocabulary : Vocabulary) (name : String) (attrs : TagAttributes)
    (selfClosing : Bool) : Build Unit := do
  let name := match vocabulary with
    | .svg => (svgElementNames.lookup name).getD name
    | _ => name
  let _ ← openElement { name, vocabulary, attrs := attrs.map (foreignAttribute vocabulary) }
  if selfClosing then pop

/-- Whether an element of a formula holds text by the HTML rules. -/
def holdsMathText (e : DraftElement) : Bool :=
  e.vocabulary = .math && ["mi", "mo", "mn", "ms", "mtext"].contains e.name

/-- Whether an element of another vocabulary holds HTML. -/
def holdsHtml (e : DraftElement) : Bool :=
  match e.vocabulary with
  | .svg => ["foreignObject", "desc", "title"].contains e.name
  | .math =>
    e.name = "annotation-xml" && (match e.attrs.lookup "encoding" with
      | some encoding => ["text/html", "application/xhtml+xml"].contains encoding.toLower
      | none => false)
  | .html => false

/-- Whether a token falls under the rules of another vocabulary. -/
def isForeign (t : Token) : Build Bool := do
  let s ← get
  if s.opened.isEmpty then return false
  let e ← element (← current)
  if e.vocabulary = .html then return false
  match t with
  | .done => return false
  | .char _ => return !(holdsMathText e || holdsHtml e)
  | .openTag name _ _ =>
    if holdsMathText e && name ≠ "mglyph" && name ≠ "malignmark" then return false
    if holdsHtml e then return false
    return !(e.vocabulary = .math && e.name = "annotation-xml" && name = "svg")
  | _ => return true

/-- Leave the foreign vocabulary. -/
def leaveForeign : Build Unit :=
  modify fun s => { s with opened := s.opened.dropWhile fun id =>
    let e := s.draft.get id
    !(e.vocabulary = .html || holdsMathText e || holdsHtml e) }

/-- Close an element of another vocabulary; whether the HTML rules are to close it. -/
def closeForeign (name : String) : Build Bool := do
  let s ← get
  let rec look (first : Bool) : List Nat → Bool × List Nat
    | [] => (false, s.opened)
    | [_] => (false, s.opened)
    | id :: rest =>
      let e := s.draft.get id
      if !first && e.vocabulary = .html then (true, s.opened)
      else if e.name.toLower = name then (false, rest)
      else look false rest
  let (byHtml, opened) := look true s.opened
  set { s with opened }
  return byHtml

end Build

end PageCompiler.Html
