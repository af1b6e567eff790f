import PageCompiler.Text.Blank

/-!
# Locations

Paths with slashes between their parts, and the way from one to another. Empty parts do not
count, so a path means the same with and without slashes at its ends. An absolute address
begins with a scheme or with two slashes.
-/

namespace PageCompiler

/-- Whether a character may stand in the name of a scheme, after its first letter. -/
def isSchemeChar (c : Char) : Bool := c.isAlphanum || c = '+' || c = '.' || c = '-'

/-- Whether a text is an address of its own: a scheme and a colon, or two slashes, begin it. -/
def isAbsoluteAddress (s : String) : Bool :=
  match s.toList with
  | '/' :: '/' :: _ => true
  | c :: rest => c.isAlpha && (rest.dropWhile isSchemeChar).head? = some ':'
  | [] => false

/-- The parts of a path, without the empty ones. -/
def pathParts (path : String) : List String :=
  (piecesBy (· = '/') path.toList).map String.ofList

/-- How many parts two paths have in common at their start. -/
def commonParts : List String → List String → Nat
  | a :: as, b :: bs => if a = b then commonParts as bs + 1 else 0
  | _, _ => 0

/-- The parts of the way from one path to another: up to the last common part, then down. -/
def wayParts (source target : List String) : List String :=
  let common := commonParts source target
  List.replicate (source.length - common) ".." ++ target.drop common

/-- The way from one path to another. -/
def relativePath (source target : String) : String :=
  "/".intercalate (wayParts (pathParts source) (pathParts target))

end PageCompiler
