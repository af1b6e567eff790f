import PageCompiler.Document.Transform
import PageCompiler.Options
import PageCompiler.Text.Casing

/-!
# Applying a mapping

An element whose type has an entry in the mapping takes over what the entry says, but keeps
what it has itself: its attributes and events win over those of the entry, and its children
go where the entry has a place for them. Then attributes and events get the names of the
target, entry by entry in the order of the tables, other components get their path, and the
addresses of assets are placed.
-/

namespace PageCompiler

/-! ## Children -/

mutual

/-- Put children at the first mark in a node. Answers what stands for the node and the children
that are still to be placed. -/
def Node.fill : Node → List Node → List Node × List Node
  | .element content, own =>
    let (filled, left) := content.fill own
    ([.element filled], left)
  | .dynamic reference, own =>
    if reference.scope = .children then (own, []) else ([.dynamic reference], own)
  | .slot content, own => ([.slot content], own)
  | .conditional content, own => ([.conditional content], own)
  | .repetition content, own => ([.repetition content], own)
  | .constant value, own => ([.constant value], own)
  | .raw text, own => ([.raw text], own)
  | .inject text, own => ([.inject text], own)
  | .expr text, own => ([.expr text], own)

/-- Put children at the first mark among the children of an element. -/
def Element.fill : Element → List Node → Element × List Node
  | ⟨key, elementType, name, semanticType, dependency, attrs, events, style, referencedStyles,
      abilities, children, selfClosing⟩, own =>
    let (filled, left) := nodesFill children own
    (⟨key, elementType, name, semanticType, dependency, attrs, events, style, referencedStyles,
      abilities, filled, selfClosing⟩, left)

/-- Put children at the first mark in a list of nodes. -/
def nodesFill : List Node → List Node → List Node × List Node
  | [], own => ([], own)
  | node :: rest, own =>
    let (filled, left) := node.fill own
    let (others, left) := nodesFill rest left
    (filled ++ others, left)

end

/-- The children of a mapped element: the template with the element's own children at its first
mark. Other marks vanish; without a mark the own children are dropped. -/
def insertChildren (template own : List Node) : List Node := (nodesFill template own).1

/-! ## Attributes and events -/

/-- Take over one attribute of a mapping: a reference to an attribute moves the element's own
attribute of that name, any other value is for elements that lack the attribute. -/
def takeOver (own : Attributes) (entry : String × Attribute) : Attributes :=
  let lacking := Dict.insertNew own entry.1 entry.2
  match entry.2 with
  | .dynamic reference =>
    if reference.scope = .attr then
      match Dict.get? own reference.id with
      | some value => Dict.insert (Dict.erase own reference.id) entry.1 value
      | none => own
    else lacking
  | _ => lacking

/-- Rename one entry of a table, in place of an entry that has the new name. -/
def renameEntry {α : Type} (d : Dict α) (names : String × String) : Dict α :=
  match Dict.get? d names.1 with
  | some value => Dict.insert (Dict.erase d names.1) names.2 value
  | none => d

/-- Rename the entries of a table, one name after the other. -/
def renameEntries {α : Type} (d : Dict α) (names : Dict String) : Dict α :=
  names.foldl renameEntry d

/-! ## Elements -/

/-- Take over what a mapping says about the type of an element. -/
def ElementMapping.apply (m : ElementMapping) (e : Element) : Element :=
  { e with
    semanticType := some (e.semanticType.getD e.elementType)
    elementType := m.elementType
    dependency := e.dependency.or m.dependency
    selfClosing := e.selfClosing || m.selfClosing
    attrs := m.attrs.foldl takeOver e.attrs
    events := m.events.foldl (fun events entry => Dict.insertNew events entry.1 entry.2) e.events
    children := match m.children with
      | some template => insertChildren template e.children
      | none => e.children }

/-- Attributes that hold the address of an asset. -/
def assetAttributes : List String := ["src", "srcset", "poster"]

/-- Place the address in an attribute. -/
def Attribute.place (assets : Assets) : Attribute → Attribute
  | .constant (.text path) => .constant (.text (assets.place path))
  | other => other

/-- The path of another component below the prefix for them. -/
def Dependency.locate (localPrefix : Option String) (e : Element) (d : Dependency) : Dependency :=
  match localPrefix with
  | some start =>
    if d.origin = .project then
      { d with path := start ++ dashCase ((e.semanticType.or e.name).getD "") }
    else d
  | none => d

/-- Apply a mapping to one element. -/
def Element.applyMapping (mapping : Mapping) (o : Options) (e : Element) : Element :=
  let e := { e with name := some (e.name.getD e.elementType) }
  let e := match Dict.get? mapping.elements e.elementType with
    | some m => m.apply e
    | none => e
  { e with
    attrs := assetAttributes.foldl (fun attrs name => Dict.modify attrs name (·.place o.assets))
      (renameEntries e.attrs mapping.attributes)
    events := renameEntries e.events mapping.events
    dependency := e.dependency.map (·.locate o.localPrefix e) }

/-! ## Trees -/

/-- The longest way down what an entry puts into an element. -/
def ElementMapping.depth (m : ElementMapping) : Nat :=
  max (attributesDepth m.attrs) (nodesDepth (m.children.getD []))

/-- A depth that applying a mapping to a tree keeps within, unless an entry of the mapping leads
back to its own type: each element of the tree can grow by the templates of all types. -/
def Mapping.depthBound (mapping : Mapping) (depth : Nat) : Nat :=
  let deepest := mapping.elements.foldl (fun d entry => max d entry.2.depth) 0
  (depth + 1) * Nat.pow (deepest + 2) (mapping.elements.length + 1)

/-- Apply a mapping to a tree. -/
def Node.applyMapping (mapping : Mapping) (o : Options) (node : Node) : Except Diagnostic Node :=
  node.transform (Element.applyMapping mapping o) (mapping.depthBound node.depth)

/-- Apply a mapping to an element and what hangs below it. -/
def Element.applyMappingDeep (mapping : Mapping) (o : Options) (e : Element) :
    Except Diagnostic Element :=
  e.transform (Element.applyMapping mapping o) (mapping.depthBound e.depth)

end PageCompiler
