import PageCompiler.Document.Basic

/-!
# Slots of an instance

The children of an instance take the place of the first slot in the tree of its component, in
the order of the document: slots are looked for among the children of elements and in the bodies
of conditionals and repetitions.
-/

namespace PageCompiler

mutual

/-- Put children in the place of the first slot below a node; nothing if there is none. -/
def Node.fillSlot (own : List Node) : Node → Option Node
  | .element content => (content.fillSlot own).map .element
  | .conditional content => (content.fillSlot own).map .conditional
  | .repetition content => (content.fillSlot own).map .repetition
  | _ => none

/-- Put children in the place of the first slot in the body of a conditional. -/
def Conditional.fillSlot (own : List Node) : Conditional → Option Conditional
  | ⟨node, reference, value, condition⟩ =>
    (node.fillSlot own).map fun node => ⟨node, reference, value, condition⟩

/-- Put children in the place of the first slot in the body of a repetition. -/
def Repetition.fillSlot (own : List Node) : Repetition → Option Repetition
  | ⟨node, source, names⟩ => (node.fillSlot own).map fun node => ⟨node, source, names⟩

/-- Put children in the place of the first slot below an element. -/
def Element.fillSlot (own : List Node) : Element → Option Element
  | ⟨key, elementType, name, semanticType, dependency, attrs, events, style, referencedStyles,
      abilities, children, selfClosing⟩ =>
    (nodesFillSlot own children).map fun children =>
      ⟨key, elementType, name, semanticType, dependency, attrs, events, style, referencedStyles,
        abilities, children, selfClosing⟩

/-- Put children in the place of the first slot in a list of nodes. -/
def nodesFillSlot (own : List Node) : List Node → Option (List Node)
  | [] => none
  | .slot _ :: rest => some (own ++ rest)
  | node :: rest =>
    match node.fillSlot own with
    | some node => some (node :: rest)
    | none => (nodesFillSlot own rest).map (node :: ·)

end

end PageCompiler
