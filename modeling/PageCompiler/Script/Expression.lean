import PageCompiler.Script.Lexeme

/-!
# Expressions of a script

Besides declarations a script can hold expressions of names that are joined by operators. A name
can have type arguments in angle brackets, and whether a bracket opens type arguments or
compares is told by what stands behind the closing one. There are no parentheses, so a chain of
operands and operators is all that the layout has to keep.
-/

namespace PageCompiler.Script

/-- A name with its type arguments. -/
structure Operand where
  name : String
  typeArguments : List String := []
  deriving DecidableEq, Inhabited, Repr

/-- Operands joined by operators: the first operand, then each operator with the operand behind
it. -/
structure Expression where
  first : Operand
  rest : List (String × Operand) := []
  deriving DecidableEq, Inhabited, Repr

/-! ## Reading -/

/-- The reserved words that stand for a value. -/
def valueWords : List String := ["false", "null", "this", "true"]

/-- Whether a word can be an operand. -/
def isOperandName (s : String) : Bool := !reservedWords.contains s || valueWords.contains s

/-- Whether a word can be a type argument. -/
def isTypeName (s : String) : Bool := isOperandName s || s = "void"

/-- The operators that are words. -/
def operatorWords : List String := ["in", "instanceof"]

/-- The marks that join two operands. -/
def operatorMarks : List String := [
  ">>>", "===", "!==", "**", "&&", "||", "??", "<<", ">>", "<=", ">=", "==", "!=", "*", "<", ">",
  "+", "-", "%", "&", "|", "^"]

/-- The operator that a lexeme stands for. -/
def operator? : Symbol → Option String
  | .word s => if operatorWords.contains s then some s else none
  | .mark s => if operatorMarks.contains s then some s else none
  | .quoted _ => none

/-- The type arguments up to the closing bracket, and the rest. -/
def typeArguments? : List Lexeme → Option (List String × List Lexeme)
  | ⟨.word t, _⟩ :: ⟨.mark ">", _⟩ :: rest => if isTypeName t then some ([t], rest) else none
  | ⟨.word t, _⟩ :: ⟨.mark ",", _⟩ :: rest => do
    let (more, after) ← typeArguments? rest
    if isTypeName t then some (t :: more, after) else none
  | _ => none

/-- Whether a list in angle brackets is one of type arguments, as told by what stands behind it:
not an operand, unless a line ends before it, and no sign that could begin one. -/
def endsTypeArguments : List Lexeme → Bool
  | [] => true
  | l :: _ =>
    match l.symbol with
    | .mark "<" | .mark ">" | .mark "+" | .mark "-" => false
    | .mark "\x7b" | .quoted _ => l.afterLineEnd
    | .word s => l.afterLineEnd || operatorWords.contains s
    | .mark _ => true

/-- An operand and the rest. -/
def operand? : List Lexeme → Option (Operand × List Lexeme)
  | ⟨.word name, _⟩ :: rest =>
    if isOperandName name then
      let plain := some ({ name }, rest)
      match rest with
      | ⟨.mark "<", _⟩ :: inner =>
        match typeArguments? inner with
        | some (typeArguments, after) =>
          if endsTypeArguments after then some (⟨name, typeArguments⟩, after) else plain
        | none => plain
      | _ => plain
    else none
  | _ => none

/-- The operators that follow an operand, each with its operand, and the rest. Each round reads
at least one lexeme. -/
def operations? : (fuel : Nat) → List Lexeme → Option (List (String × Operand) × List Lexeme)
  | _, [] => some ([], [])
  | 0, _ => none
  | fuel + 1, l :: rest =>
    match operator? l.symbol with
    | none => some ([], l :: rest)
    | some op => do
      let (operand, rest) ← operand? rest
      let (more, rest) ← operations? fuel rest
      some ((op, operand) :: more, rest)

/-- Whether no chain of the operators joins a fallback with a conjunction or disjunction, which
only parentheses could do. -/
def isUnmixed (ops : List String) : Bool :=
  !ops.contains "??" || !(ops.contains "&&" || ops.contains "||")

/-- An expression and the rest. -/
def expression? (ls : List Lexeme) : Option (Expression × List Lexeme) := do
  let (first, rest) ← operand? ls
  let (operations, rest) ← operations? rest.length rest
  if isUnmixed (operations.map (·.1)) then some (⟨first, operations⟩, rest) else none

/-! ## Layout -/

/-- The written form of an operand. -/
def Operand.text (o : Operand) : String :=
  if o.typeArguments.isEmpty then o.name
  else o.name ++ "<" ++ ", ".intercalate o.typeArguments ++ ">"

/-- The written form of an expression, as a statement. -/
def Expression.text (e : Expression) : String :=
  " ".intercalate (e.first.text :: e.rest.flatMap fun operation =>
    [operation.1, operation.2.text]) ++ ";"

end PageCompiler.Script
