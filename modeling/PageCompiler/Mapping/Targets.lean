import PageCompiler.Mapping.Basic

/-!
# Built-in targets

The mappings for plain HTML pages, for React and for Vue. They share the names of the markup
elements and differ in what a link between pages becomes, in the names of events and
attributes, and in the names they do not allow.
-/

namespace PageCompiler

/-- An element mapping that only changes the type. -/
def ElementMapping.renamed (elementType : String) : ElementMapping := { elementType }

/-- Take an attribute of the target from an attribute of the abstract element. -/
def ElementMapping.withAttribute (m : ElementMapping) (name source : String) : ElementMapping :=
  { m with attrs := Dict.insert m.attrs name (.dynamic { scope := .attr, id := source }) }

/-- An element mapping to an element without an end tag. -/
def ElementMapping.closed (m : ElementMapping) : ElementMapping := { m with selfClosing := true }

namespace Mapping

/-- What a link between pages becomes: an element type and the attribute that holds the page. -/
def routeLink (elementType target : String) : ElementMapping :=
  (ElementMapping.renamed elementType).withAttribute target "transitionTo"

/-- The markup elements, with what a link between pages becomes. -/
def markupElements (link : ElementMapping) : Dict ElementMapping :=
  Dict.ofList [
    ("container", .renamed "div"),
    ("group", .renamed "div"),
    ("section", .renamed "section"),
    ("text", .renamed "span"),
    ("label", .renamed "label"),
    ("button", .renamed "button"),
    ("form", .renamed "form"),
    ("list", .renamed "ul"),
    ("list-item", .renamed "li"),
    ("textarea", .renamed "textarea"),
    ("video", (ElementMapping.renamed "video").withAttribute "src" "url"),
    ("audio", (ElementMapping.renamed "audio").withAttribute "src" "url"),
    ("html-node", .renamed "div"),
    ("image", ((ElementMapping.renamed "img").withAttribute "src" "url").closed),
    ("link", (ElementMapping.renamed "a").withAttribute "href" "url"),
    ("textinput", (ElementMapping.renamed "input").closed),
    ("separator", (ElementMapping.renamed "hr").closed),
    ("navlink", link)]

/-- Plain HTML pages. -/
def html : Mapping where
  elements := markupElements (routeLink "a" "href")

/-- React components. -/
def react : Mapping where
  elements := markupElements (routeLink "a" "href")
  events := Dict.ofList [("click", "onClick"), ("change", "onChange"), ("submit", "onSubmit"),
    ("focus", "onFocus"), ("blur", "onBlur"), ("mouseenter", "onMouseEnter"),
    ("mouseleave", "onMouseLeave")]
  attributes := Dict.ofList [("class", "className"), ("for", "htmlFor"),
    ("tabindex", "tabIndex")]
  illegalClassNames := ["Fragment", "React", "Component", "Link", "Head"]
  illegalPropNames := ["key", "ref", "children", "dangerouslySetInnerHTML"]

/-- Vue components. -/
def vue : Mapping where
  elements := markupElements (routeLink "router-link" "to")
  illegalClassNames := ["Transition", "KeepAlive", "Component", "Slot"]
  illegalPropNames :=
    ["data", "props", "methods", "computed", "watch", "components", "template"]

end Mapping

end PageCompiler
