import PageCompiler.Script.Expression
import PageCompiler.Script.Import

/-!
# The layout of a script

`renderScript` brings a script into one layout: one statement a line, each ended by a semicolon.
A script that does not read as a list of statements is left as it stands.
-/

namespace PageCompiler.Script

/-- A statement of a script. -/
inductive Statement where
  | imports (declaration : ImportDeclaration)
  | expression (e : Expression)
  | empty
  deriving DecidableEq, Inhabited, Repr

/-- The written form of a statement. -/
def Statement.text : Statement → String
  | .imports declaration => declaration.text
  | .expression e => e.text
  | .empty => ";"

/-- A statement without the semicolon at its end, and the rest. -/
def statement? : List Lexeme → Option (Statement × List Lexeme)
  | ⟨.word "import", _⟩ :: rest => (declaration? rest).map fun found => (.imports found.1, found.2)
  | ls => (expression? ls).map fun found => (.expression found.1, found.2)

/-- The statements of a script. A statement ends at a semicolon, at the end of its line or at
the end of the script. Each round reads at least one lexeme. -/
def statements? : (fuel : Nat) → List Lexeme → Option (List Statement)
  | _, [] => some []
  | 0, _ => none
  | fuel + 1, ⟨.mark ";", _⟩ :: rest => do some (.empty :: (← statements? fuel rest))
  | fuel + 1, ls => do
    let (statement, rest) ← statement? ls
    match rest with
    | [] => some [statement]
    | ⟨.mark ";", _⟩ :: rest => some (statement :: (← statements? fuel rest))
    | l :: _ =>
      if l.afterLineEnd then some (statement :: (← statements? fuel rest)) else none

/-- The statements that a script consists of, if it can be read. -/
def parse? (source : String) : Option (List Statement) := do
  let cs := source.toList
  let ls ← lexemes? (cs.length + 1) true cs
  statements? ls.length ls

/-- A script in the layout of the output. -/
def renderScript (source : String) : String :=
  if isBlank source then ""
  else match parse? source with
    | some statements => "\n".intercalate (statements.map (·.text))
    | none => source

end PageCompiler.Script
