import PageCompiler.Dict
import PageCompiler.Text.Blank

/-!
# Asset paths

Where the files of a project are served from. A path with an address of its own in the table
gets it. Any other path that begins with a single slash is moved below the prefix, provided
its first part is the identifier when there is one. Everything else stays as it is.

In a style value every `url(…)` is treated this way (`placeUrls`).
-/

namespace PageCompiler

/-- Where assets are served from. -/
structure Assets where
  /-- What is put before the path of an asset. -/
  location : Option String := none
  /-- The first part of every path that is an asset. -/
  identifier : Option String := none
  /-- Paths with an address of their own. -/
  mappings : Dict String := []
  deriving DecidableEq, Inhabited, Repr

namespace Assets

/-- The first part of a path, after all slashes at its start. -/
def firstPart (path : List Char) : List Char :=
  (path.dropWhile (· = '/')).takeWhile (· ≠ '/')

/-- Whether a path is one that the prefix applies to. -/
def covers (assets : Assets) (path : String) : Bool :=
  match path.toList with
  | '/' :: '/' :: _ => false
  | '/' :: rest =>
    match assets.identifier with
    | some identifier => firstPart rest = identifier.toList
    | none => true
  | _ => false

/-- The path an asset is served under. -/
def place (assets : Assets) (path : String) : String :=
  match Dict.get? assets.mappings path with
  | some mapped => mapped
  | none =>
    if assets.covers path then
      match assets.location with
      | some location => if location.isEmpty then path else trimEnd (· = '/') location ++ path
      | none => path
    else path

/-- A quote, of either kind. -/
def isQuote (c : Char) : Bool := c = '"' || c = '\''

/-- The closing quote, if any, the white space and the bracket at the end of a `url(…)`: what
follows them. -/
def closing? (cs : List Char) : Option (List Char) :=
  let cs := match cs with
    | c :: rest => if isQuote c then rest else cs
    | [] => []
  match cs.dropWhile isBlankChar with
  | ')' :: rest => some rest
  | _ => none

/-- A path up to the next quote or closing bracket, and what follows the whole `url(…)`. -/
def pathBody? (cs : List Char) : Option (List Char × List Char) := do
  let inner := cs.takeWhile fun c => !isQuote c && c ≠ ')'
  if inner.isEmpty then none
  else some (inner, ← closing? (cs.dropWhile fun c => !isQuote c && c ≠ ')'))

/-- What stands after `url(`: an opening quote or none, the path, and what follows the closing
bracket. White space before the path does not belong to it, unless there would be no path
without it. -/
def urlBody? (cs : List Char) : Option (List Char × List Char × List Char) :=
  let blanks := cs.takeWhile isBlankChar
  let rest := cs.dropWhile isBlankChar
  let quoted := match rest with
    | c :: more =>
      if isQuote c then (pathBody? more).map fun (path, after) => ([c], path, after)
      else (pathBody? rest).map fun (path, after) => ([], path, after)
    | [] => none
  match quoted, blanks.getLast? with
  | some found, _ => some found
  | none, some blank => (pathBody? (blank :: rest)).map fun (path, after) => ([], path, after)
  | none, none => none

/-- Place every path in a `url(…)`. Each round reads at least one character. -/
def placeUrlsIn (assets : Assets) : (fuel : Nat) → List Char → List Char
  | 0, cs => cs
  | _, [] => []
  | fuel + 1, c :: rest =>
    let found := match c, rest with
      | 'u', 'r' :: 'l' :: '(' :: body => urlBody? body
      | _, _ => none
    match found with
    | some (quote, path, after) =>
      ['u', 'r', 'l', '('] ++ quote ++ (assets.place (String.ofList path)).toList ++ quote
        ++ [')'] ++ placeUrlsIn assets fuel after
    | none => c :: placeUrlsIn assets fuel rest

/-- A style value with every path in a `url(…)` placed. -/
def placeUrls (assets : Assets) (value : String) : String :=
  let cs := value.toList
  String.ofList (placeUrlsIn assets cs.length cs)

end Assets

end PageCompiler
