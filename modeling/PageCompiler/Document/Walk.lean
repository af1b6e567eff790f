import PageCompiler.Document.Basic

/-!
# Walking a document

One order for every walk over a tree: an element comes before the elements among its
attributes, by attribute name, and those come before its children. A conditional, a
repetition and the fallback of a slot are entered; the reference of a conditional and the
source of a repetition are not. For a component the tree comes first and the element defaults
of its props follow, by prop name.

`elements`, `repetitions` and `nodes` list what a walk meets. `updateM` changes the elements
and the names of the repetitions it meets, in the same order; what hangs below an element
comes from the walk, whatever the visitor does to it.
-/

namespace PageCompiler

/-! ## Listing -/

mutual

/-- The elements of a tree, in the order of the walk. -/
def Node.elements : Node → List Element
  | .slot content => content.elements
  | .element content => content.elements
  | .conditional content => content.elements
  | .repetition content => content.elements
  | _ => []

/-- The elements of the fallback of a slot. -/
def Slot.elements : Slot → List Element
  | ⟨_, none⟩ => []
  | ⟨_, some node⟩ => node.elements

/-- The elements of the body of a conditional. -/
def Conditional.elements : Conditional → List Element
  | ⟨node, _, _, _⟩ => node.elements

/-- The elements of the body of a repetition. -/
def Repetition.elements : Repetition → List Element
  | ⟨node, _, _⟩ => node.elements

/-- An element and the elements below it. -/
def Element.elements : Element → List Element
  | ⟨key, elementType, name, semanticType, dependency, attrs, events, style, referencedStyles,
      abilities, children, selfClosing⟩ =>
    ⟨key, elementType, name, semanticType, dependency, attrs, events, style, referencedStyles,
      abilities, children, selfClosing⟩ :: (attributesElements attrs ++ nodesElements children)

/-- The elements of a list of nodes. -/
def nodesElements : List Node → List Element
  | [] => []
  | node :: rest => node.elements ++ nodesElements rest

/-- The elements of a list of attributes. -/
def attributesElements : List (String × Attribute) → List Element
  | [] => []
  | (_, value) :: rest => value.elements ++ attributesElements rest

/-- The elements of an attribute. -/
def Attribute.elements : Attribute → List Element
  | .element content => content.elements
  | _ => []

end

mutual

/-- The repetitions of a tree, in the order of the walk. -/
def Node.repetitions : Node → List Repetition
  | .slot content => content.repetitions
  | .element content => content.repetitions
  | .conditional content => content.repetitions
  | .repetition content => content.repetitions
  | _ => []

/-- The repetitions of the fallback of a slot. -/
def Slot.repetitions : Slot → List Repetition
  | ⟨_, none⟩ => []
  | ⟨_, some node⟩ => node.repetitions

/-- The repetitions of the body of a conditional. -/
def Conditional.repetitions : Conditional → List Repetition
  | ⟨node, _, _, _⟩ => node.repetitions

/-- A repetition and the repetitions of its body. -/
def Repetition.repetitions : Repetition → List Repetition
  | ⟨node, source, names⟩ => ⟨node, source, names⟩ :: node.repetitions

/-- The repetitions below an element. -/
def Element.repetitions : Element → List Repetition
  | ⟨_, _, _, _, _, attrs, _, _, _, _, children, _⟩ =>
    attributesRepetitions attrs ++ nodesRepetitions children

/-- The repetitions of a list of nodes. -/
def nodesRepetitions : List Node → List Repetition
  | [] => []
  | node :: rest => node.repetitions ++ nodesRepetitions rest

/-- The repetitions of a list of attributes. -/
def attributesRepetitions : List (String × Attribute) → List Repetition
  | [] => []
  | (_, value) :: rest => value.repetitions ++ attributesRepetitions rest

/-- The repetitions of an attribute. -/
def Attribute.repetitions : Attribute → List Repetition
  | .element content => content.repetitions
  | _ => []

end

mutual

/-- The nodes of a tree, each before the nodes below it; attributes are left out. -/
def Node.nodes : Node → List Node
  | .slot content => .slot content :: content.nodes
  | .element content => .element content :: content.nodes
  | .conditional content => .conditional content :: content.nodes
  | .repetition content => .repetition content :: content.nodes
  | .constant value => [.constant value]
  | .dynamic reference => [.dynamic reference]
  | .raw text => [.raw text]
  | .inject text => [.inject text]
  | .expr text => [.expr text]

/-- The nodes of the fallback of a slot. -/
def Slot.nodes : Slot → List Node
  | ⟨_, none⟩ => []
  | ⟨_, some node⟩ => node.nodes

/-- The nodes of the body of a conditional. -/
def Conditional.nodes : Conditional → List Node
  | ⟨node, _, _, _⟩ => node.nodes

/-- The nodes of the body of a repetition. -/
def Repetition.nodes : Repetition → List Node
  | ⟨node, _, _⟩ => node.nodes

/-- The nodes among and below the children of an element. -/
def Element.nodes : Element → List Node
  | ⟨_, _, _, _, _, _, _, _, _, _, children, _⟩ => nodesNodes children

/-- The nodes of a list of nodes. -/
def nodesNodes : List Node → List Node
  | [] => []
  | node :: rest => node.nodes ++ nodesNodes rest

end

/-! ## Updating -/

/-- What a walk does to the elements and to the repetitions it meets. -/
structure Visitor (m : Type → Type) where
  element : Element → m Element
  names : Repetition → m RepetitionNames

/-- A visitor that changes elements only. -/
def Visitor.ofElement {m : Type → Type} [Monad m] (f : Element → m Element) : Visitor m where
  element := f
  names := fun r => pure r.names

/-- A visitor that changes the names of repetitions only. -/
def Visitor.ofNames {m : Type → Type} [Monad m] (f : Repetition → m RepetitionNames) :
    Visitor m where
  element := pure
  names := f

mutual

/-- Walk a tree with a visitor. -/
def Node.updateM {m : Type → Type} [Monad m] (v : Visitor m) : Node → m Node
  | .slot content => do return .slot (← content.updateM v)
  | .element content => do return .element (← content.updateM v)
  | .conditional content => do return .conditional (← content.updateM v)
  | .repetition content => do return .repetition (← content.updateM v)
  | .constant value => return .constant value
  | .dynamic reference => return .dynamic reference
  | .raw text => return .raw text
  | .inject text => return .inject text
  | .expr text => return .expr text

/-- Walk the fallback of a slot. -/
def Slot.updateM {m : Type → Type} [Monad m] (v : Visitor m) : Slot → m Slot
  | ⟨name, none⟩ => return ⟨name, none⟩
  | ⟨name, some node⟩ => do return ⟨name, some (← node.updateM v)⟩

/-- Walk the body of a conditional. -/
def Conditional.updateM {m : Type → Type} [Monad m] (v : Visitor m) : Conditional → m Conditional
  | ⟨node, reference, value, condition⟩ => do
    return ⟨← node.updateM v, reference, value, condition⟩

/-- Visit a repetition, then walk its body. -/
def Repetition.updateM {m : Type → Type} [Monad m] (v : Visitor m) : Repetition → m Repetition
  | ⟨node, source, names⟩ => do
    let names ← v.names ⟨node, source, names⟩
    return ⟨← node.updateM v, source, names⟩

/-- Visit an element, then walk its attributes and children. -/
def Element.updateM {m : Type → Type} [Monad m] (v : Visitor m) : Element → m Element
  | ⟨key, elementType, name, semanticType, dependency, attrs, events, style, referencedStyles,
      abilities, children, selfClosing⟩ => do
    let e ← v.element ⟨key, elementType, name, semanticType, dependency, attrs, events, style,
      referencedStyles, abilities, children, selfClosing⟩
    let attrs ← attributesUpdateM v attrs
    let children ← nodesUpdateM v children
    return { e with attrs, children }

/-- Walk a list of nodes. -/
def nodesUpdateM {m : Type → Type} [Monad m] (v : Visitor m) : List Node → m (List Node)
  | [] => return []
  | node :: rest => do
    let node ← node.updateM v
    return node :: (← nodesUpdateM v rest)

/-- Walk a list of attributes. -/
def attributesUpdateM {m : Type → Type} [Monad m] (v : Visitor m) :
    List (String × Attribute) → m (List (String × Attribute))
  | [] => return []
  | (name, value) :: rest => do
    let value ← value.updateM v
    return (name, value) :: (← attributesUpdateM v rest)

/-- Walk an attribute. -/
def Attribute.updateM {m : Type → Type} [Monad m] (v : Visitor m) : Attribute → m Attribute
  | .element content => do return .element (← content.updateM v)
  | .constant value => return .constant value
  | .dynamic reference => return .dynamic reference
  | .raw text => return .raw text
  | .imported id => return .imported id
  | .expr text => return .expr text
  | .object value => return .object value

end

/-- Change every element of a tree. -/
def Node.mapElements (f : Element → Element) (node : Node) : Node :=
  Id.run (node.updateM (.ofElement fun e => pure (f e)))

/-! ## Components -/

/-- The element defaults of props, by prop name. -/
def defaultNodes (props : Dict PropDefinition) : List Node :=
  props.filterMap fun entry =>
    match entry.2.default with
    | some (.node node) => some node
    | _ => none

/-- The trees of a component: its own, then the element defaults of its props. -/
def Component.trees (c : Component) : List Node := c.node :: defaultNodes c.props

/-- The elements of a component. -/
def Component.elements (c : Component) : List Element := c.trees.flatMap Node.elements

/-- The repetitions of a component. -/
def Component.repetitions (c : Component) : List Repetition := c.trees.flatMap Node.repetitions

/-- Change the element default of a prop definition. -/
def PropDefinition.updateM {m : Type → Type} [Monad m] (f : Node → m Node)
    (d : PropDefinition) : m PropDefinition :=
  match d.default with
  | some (.node node) => do return { d with default := some (.node (← f node)) }
  | _ => pure d

/-- Change the trees of a component, one after the other. -/
def Component.updateTreesM {m : Type → Type} [Monad m] (f : Node → m Node) (c : Component) :
    m Component := do
  let node ← f c.node
  let props ← c.props.mapM fun entry => do return (entry.1, ← entry.2.updateM f)
  return { c with node, props }

/-- Walk the trees of a component with a visitor. -/
def Component.updateM {m : Type → Type} [Monad m] (v : Visitor m) (c : Component) :
    m Component :=
  c.updateTreesM (Node.updateM v)

end PageCompiler
