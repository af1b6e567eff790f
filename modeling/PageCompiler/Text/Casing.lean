import PageCompiler.Text.Blank

/-!
# Word casing

Identifiers are taken apart into words of ASCII letters and digits and put together again:
with dashes and in lower case (`dashCase`), or each word with a capital first letter
(`upperCamel`). Whatever is neither an ASCII letter nor an ASCII digit only separates words,
so a text without any becomes the empty text. For the dashed form a capital after a small
letter or a digit begins a new word too.
-/

namespace PageCompiler

/-- Put a dash between a small letter or digit and a capital that follows it. -/
def breakHumps : List Char → List Char
  | [] => []
  | c :: rest =>
    match rest with
    | [] => [c]
    | d :: _ =>
      if (c.isLower || c.isDigit) && d.isUpper then c :: '-' :: breakHumps rest
      else c :: breakHumps rest

/-- The words of a text: its longest pieces of ASCII letters and digits. -/
def words (cs : List Char) : List (List Char) := piecesBy (fun c => !c.isAlphanum) cs

/-- Small words joined by dashes: `PrimaryButton` becomes `primary-button`. -/
def dashCase (s : String) : String :=
  String.ofList (['-'].intercalate ((words (breakHumps s.toList)).map (·.map Char.toLower)))

/-- A word with a capital first letter. -/
def capitalize : List Char → List Char
  | [] => []
  | c :: rest => c.toUpper :: rest

/-- Words with capital first letters, run together: `primary-button` becomes
`PrimaryButton`. -/
def upperCamel (s : String) : String :=
  String.ofList ((words s.toList).flatMap capitalize)

end PageCompiler
