import PageCompiler.Json.Printer
import PageCompiler.Document.Writer

/-!
# Conditions on values

Whether a value meets the conditions of a conditional. A condition with an operand compares:
two values are equal only if they are of one kind and equal, and only two numbers or two texts
have an order, so that all other comparisons of order fail (`Incomparable`). A condition
without an operand asks whether the value counts as true.

Conditions are looked at in order, and the first one that settles the answer ends the test; a
comparison that fails before that ends it too. Without conditions the answer is no.
-/

namespace PageCompiler

/-- A comparison of a value with an operand. -/
inductive Comparison where
  | equal
  | notEqual
  | greater
  | greaterOrEqual
  | less
  | lessOrEqual
  deriving DecidableEq, Inhabited, Repr

/-- The comparison with a given sign. Any other sign asks for equality. -/
def Comparison.ofSign (sign : String) : Comparison :=
  if sign = "!==" || sign = "!=" then .notEqual
  else if sign = ">" then .greater
  else if sign = ">=" then .greaterOrEqual
  else if sign = "<" then .less
  else if sign = "<=" then .lessOrEqual
  else .equal

/-- One test of a value. -/
inductive ValueTest where
  | comparison (c : Comparison) (operand : Literal)
  /-- The value counts as true. -/
  | truth
  /-- The value does not count as true. -/
  | falsity
  deriving BEq, Inhabited, Repr

/-- The test that a condition stands for. -/
def ValueTest.ofCondition (c : Condition) : ValueTest :=
  match c.operand with
  | some operand => .comparison (.ofSign c.operation) operand
  | none => if c.operation = "!!" || c.operation = "truthy" then .truth else .falsity

/-- Several tests: all of them, or one is enough. -/
structure ConditionSet where
  tests : List ValueTest
  all : Bool
  deriving BEq, Inhabited, Repr

/-- The tests of a conditional. A plain value stands for the single test of equality with it. -/
def ConditionSet.ofConditional (c : Conditional) : ConditionSet :=
  match c.value, c.condition with
  | some value, _ => ⟨[.comparison .equal value], false⟩
  | none, some group => ⟨group.conditions.map .ofCondition, group.criteria = some "all"⟩
  | none, none => ⟨[], false⟩

/-- Two values without an order between them. -/
structure Incomparable where
  left : Json
  right : Literal
  deriving BEq, Inhabited, Repr

/-- What is said about values without an order. -/
def Incomparable.message (e : Incomparable) : String :=
  "cannot compare " ++ e.left.compact ++ " with " ++ e.right.toJson.compact

/-- Whether a value counts as true: not `null`, false, zero or the empty text. -/
def Json.isTruthy : Json → Bool
  | .null => false
  | .bool b => b
  | .number n => n.toReal.units ≠ 0
  | .string s => !s.isEmpty
  | .array _ => true
  | .object _ => true
  | .unreadable => false

/-- Whether a value is of one kind with a constant and equal to it. -/
def Json.equals : Json → Literal → Bool
  | .bool a, .bool b => a = b
  | .number a, .number b => a.toReal.eqv b
  | .string a, .text b => a = b
  | _, _ => false

/-- The order of a value and a constant. -/
def Json.order (value : Json) (operand : Literal) : Except Incomparable Ordering :=
  match value, operand with
  | .number a, .number b => .ok (compare a.toReal.units b.units)
  | .string a, .text b => .ok (compare a b)
  | _, _ => .error ⟨value, operand⟩

/-- Whether a value passes a test. -/
def ValueTest.holds (t : ValueTest) (value : Json) : Except Incomparable Bool :=
  match t with
  | .truth => .ok value.isTruthy
  | .falsity => .ok (!value.isTruthy)
  | .comparison .equal operand => .ok (value.equals operand)
  | .comparison .notEqual operand => .ok (!value.equals operand)
  | .comparison .greater operand => (value.order operand).map (·.isGT)
  | .comparison .greaterOrEqual operand => (value.order operand).map (·.isGE)
  | .comparison .less operand => (value.order operand).map (·.isLT)
  | .comparison .lessOrEqual operand => (value.order operand).map (·.isLE)

/-- Whether a value passes all tests. -/
def allHold (value : Json) : List ValueTest → Except Incomparable Bool
  | [] => .ok true
  | t :: rest => do if ← t.holds value then allHold value rest else .ok false

/-- Whether a value passes one of the tests. -/
def someHolds (value : Json) : List ValueTest → Except Incomparable Bool
  | [] => .ok false
  | t :: rest => do if ← t.holds value then .ok true else someHolds value rest

/-- Whether a value meets the conditions. -/
def ConditionSet.holds (s : ConditionSet) (value : Json) : Except Incomparable Bool :=
  if s.tests.isEmpty then .ok false
  else if s.all then allHold value s.tests
  else someHolds value s.tests

end PageCompiler
