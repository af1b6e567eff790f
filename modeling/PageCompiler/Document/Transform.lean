import PageCompiler.Document.Walk
import PageCompiler.Diagnostic

/-!
# Transforming a document

A walk that changes elements before it enters them, so that it goes on into what a change has
put there. Such a walk need not end: a change may put in elements that are changed in turn.
It is given a depth that it must not go beyond, and complains when it would.

`depth` is the number of nodes, elements and attributes on the longest way down; a walk whose
changes keep the depth needs no more than that.
-/

namespace PageCompiler

/-! ## Depth -/

/-- The sum of a list of numbers. -/
def total (ns : List Nat) : Nat := ns.foldr (· + ·) 0

mutual

/-- The longest way down a tree. -/
def Node.depth : Node → Nat
  | .slot content => content.depth + 1
  | .element content => content.depth + 1
  | .conditional content => content.depth + 1
  | .repetition content => content.depth + 1
  | _ => 1

/-- The longest way down the fallback of a slot. -/
def Slot.depth : Slot → Nat
  | ⟨_, none⟩ => 1
  | ⟨_, some node⟩ => node.depth + 1

/-- The longest way down the body of a conditional. -/
def Conditional.depth : Conditional → Nat
  | ⟨node, _, _, _⟩ => node.depth + 1

/-- The longest way down the body of a repetition. -/
def Repetition.depth : Repetition → Nat
  | ⟨node, _, _⟩ => node.depth + 1

/-- The longest way down an element. -/
def Element.depth : Element → Nat
  | ⟨_, _, _, _, _, attrs, _, _, _, _, children, _⟩ =>
    max (attributesDepth attrs) (nodesDepth children) + 1

/-- The longest way down a list of nodes. -/
def nodesDepth : List Node → Nat
  | [] => 0
  | node :: rest => max node.depth (nodesDepth rest)

/-- The longest way down a list of attributes. -/
def attributesDepth : List (String × Attribute) → Nat
  | [] => 0
  | (_, value) :: rest => max value.depth (attributesDepth rest)

/-- The longest way down an attribute. -/
def Attribute.depth : Attribute → Nat
  | .element content => content.depth + 1
  | _ => 1

end

/-! ## Transforming -/

mutual

/-- Transform the elements of a tree. -/
def Node.transform (f : Element → Element) : (fuel : Nat) → Node → Except Diagnostic Node
  | 0, _ => .error .endless
  | fuel + 1, node =>
    match node with
    | .slot content => do return .slot (← content.transform f fuel)
    | .element content => do return .element (← content.transform f fuel)
    | .conditional content => do return .conditional (← content.transform f fuel)
    | .repetition content => do return .repetition (← content.transform f fuel)
    | other => .ok other

/-- Transform the fallback of a slot. -/
def Slot.transform (f : Element → Element) : (fuel : Nat) → Slot → Except Diagnostic Slot
  | 0, _ => .error .endless
  | fuel + 1, slot => do
    match slot.fallback with
    | some node => return { slot with fallback := some (← node.transform f fuel) }
    | none => return slot

/-- Transform the body of a conditional. -/
def Conditional.transform (f : Element → Element) :
    (fuel : Nat) → Conditional → Except Diagnostic Conditional
  | 0, _ => .error .endless
  | fuel + 1, conditional => do
    return { conditional with node := ← conditional.node.transform f fuel }

/-- Transform the body of a repetition. -/
def Repetition.transform (f : Element → Element) :
    (fuel : Nat) → Repetition → Except Diagnostic Repetition
  | 0, _ => .error .endless
  | fuel + 1, repetition => do
    return { repetition with node := ← repetition.node.transform f fuel }

/-- Transform an element, then what hangs below the result. -/
def Element.transform (f : Element → Element) : (fuel : Nat) → Element → Except Diagnostic Element
  | 0, _ => .error .endless
  | fuel + 1, e => do
    let e := f e
    let attrs ← e.attrs.mapM fun entry => do return (entry.1, ← entry.2.transform f fuel)
    let children ← e.children.mapM (Node.transform f fuel)
    return { e with attrs, children }

/-- Transform an attribute. -/
def Attribute.transform (f : Element → Element) :
    (fuel : Nat) → Attribute → Except Diagnostic Attribute
  | 0, _ => .error .endless
  | fuel + 1, value =>
    match value with
    | .element content => do return .element (← content.transform f fuel)
    | other => .ok other

end

end PageCompiler
