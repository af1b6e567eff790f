import PageCompiler.Document.Build
import PageCompiler.Options

/-!
# Links

An element with a link ability is put into an element that leads there: `link` for addresses,
`navlink` for other pages of the project. The new element is called after the key of the one
it holds, which loses its ability. Links are looked for wherever a walk comes, also among the
attributes of an element that was put around another one, where the address of a link may
hold an element of its own.
-/

namespace PageCompiler

/-- The address that a link to a page of the project has; a name without a page stays. -/
def Options.routeTarget (o : Options) (name : String) : String :=
  match o.routes.find? (·.name = name) with
  | some route =>
    match (if o.useFileNames then route.fileName else none).or route.navLink with
    | some path => "/" ++ trimStart (· = '/') path
    | none => name
  | none => name

/-- The address of a mail link. -/
def mailAddress (address : String) (subject body : Option String) : String :=
  let parts := (subject.map ("subject=" ++ ·)).toList ++ (body.map ("body=" ++ ·)).toList
  "mailto:" ++ address ++ (if parts.isEmpty then "" else "?" ++ "&".intercalate parts)

/-- The element that leads to an address. -/
def linkElement (key : String) (attrs : Attributes) : Element where
  key := key ++ "-link"
  elementType := "link"
  name := some (key ++ "-link")
  attrs := attrs

mutual

/-- Carry out the link abilities in a tree. -/
def Node.wrapLinks (o : Options) : Node → Node
  | .slot content => .slot (content.wrapLinks o)
  | .element content => .element (content.wrapLinks o)
  | .conditional content => .conditional (content.wrapLinks o)
  | .repetition content => .repetition (content.wrapLinks o)
  | .constant value => .constant value
  | .dynamic reference => .dynamic reference
  | .raw text => .raw text
  | .inject text => .inject text
  | .expr text => .expr text

/-- Carry out the link abilities in the fallback of a slot. -/
def Slot.wrapLinks (o : Options) : Slot → Slot
  | ⟨name, none⟩ => ⟨name, none⟩
  | ⟨name, some node⟩ => ⟨name, some (node.wrapLinks o)⟩

/-- Carry out the link abilities in the body of a conditional. -/
def Conditional.wrapLinks (o : Options) : Conditional → Conditional
  | ⟨node, reference, value, condition⟩ => ⟨node.wrapLinks o, reference, value, condition⟩

/-- Carry out the link abilities in the body of a repetition. -/
def Repetition.wrapLinks (o : Options) : Repetition → Repetition
  | ⟨node, source, names⟩ => ⟨node.wrapLinks o, source, names⟩

/-- Carry out the link abilities of an element and of those below it. -/
def Element.wrapLinks (o : Options) : Element → Element
  | ⟨key, elementType, name, semanticType, dependency, attrs, events, style, referencedStyles,
      none, children, selfClosing⟩ =>
    ⟨key, elementType, name, semanticType, dependency, attributesWrapLinks o attrs, events, style,
      referencedStyles, none, nodesWrapLinks o children, selfClosing⟩
  | ⟨key, elementType, name, semanticType, dependency, attrs, events, style, referencedStyles,
      some ⟨none⟩, children, selfClosing⟩ =>
    ⟨key, elementType, name, semanticType, dependency, attributesWrapLinks o attrs, events, style,
      referencedStyles, some ⟨none⟩, nodesWrapLinks o children, selfClosing⟩
  | ⟨key, elementType, name, semanticType, dependency, attrs, events, style, referencedStyles,
      some ⟨some link⟩, children, selfClosing⟩ =>
    { link.wrapper o key with
      children := [.element ⟨key, elementType, name, semanticType, dependency,
        attributesWrapLinks o attrs, events, style, referencedStyles, none,
        nodesWrapLinks o children, selfClosing⟩] }

/-- The element to put around one with a given key. -/
def LinkAbility.wrapper (o : Options) (key : String) : LinkAbility → Element
  | .url url newTab =>
    let outside : Attributes :=
      if newTab then [("rel", .text "noreferrer"), ("target", .text "_blank")] else []
    linkElement key (outside ++ [("url", url.wrapLinks o)])
  | .anchor id => linkElement key [("url", .text ("#" ++ id))]
  | .route name =>
    { linkElement key [("transitionTo", .text (o.routeTarget name))] with
      elementType := "navlink" }
  | .mail address subject body =>
    linkElement key [("url", .text (mailAddress address subject body))]
  | .phone digits => linkElement key [("url", .text ("tel:" ++ digits))]

/-- Carry out the link abilities in a list of nodes. -/
def nodesWrapLinks (o : Options) : List Node → List Node
  | [] => []
  | node :: rest => node.wrapLinks o :: nodesWrapLinks o rest

/-- Carry out the link abilities in a list of attributes. -/
def attributesWrapLinks (o : Options) : List (String × Attribute) → List (String × Attribute)
  | [] => []
  | (name, value) :: rest => (name, value.wrapLinks o) :: attributesWrapLinks o rest

/-- Carry out the link abilities in an attribute. -/
def Attribute.wrapLinks (o : Options) : Attribute → Attribute
  | .element content => .element (content.wrapLinks o)
  | .constant value => .constant value
  | .dynamic reference => .dynamic reference
  | .raw text => .raw text
  | .imported id => .imported id
  | .expr text => .expr text
  | .object value => .object value

end

end PageCompiler
