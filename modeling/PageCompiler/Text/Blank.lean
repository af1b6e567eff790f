/-!
# White space

The characters with the Unicode property `White_Space`. A text is blank when it holds no
other character; `trim` takes them off both ends, `blankWords` are the longest pieces
without one.
-/

namespace PageCompiler

/-- The characters with the property `White_Space`: the controls from tab to return, the
space, and the spaces and separators beyond ASCII. -/
def isBlankChar (c : Char) : Bool :=
  let n := c.toNat
  (9 ≤ n && n ≤ 13) || n = 0x20 || n = 0x85 || n = 0xA0 || n = 0x1680
    || (0x2000 ≤ n && n ≤ 0x200A) || n = 0x2028 || n = 0x2029 || n = 0x202F || n = 0x205F
    || n = 0x3000

/-- Whether a text holds white space only. -/
def isBlank (s : String) : Bool := s.toList.all isBlankChar

/-- Take the characters of a kind off the front. -/
def trimStart (p : Char → Bool) (s : String) : String := String.ofList (s.toList.dropWhile p)

/-- Take the characters of a kind off the end. -/
def trimEnd (p : Char → Bool) (s : String) : String :=
  String.ofList (s.toList.reverse.dropWhile p).reverse

/-- The longest pieces of a text without a character of a kind; empty pieces are left out. -/
def piecesBy (p : Char → Bool) : List Char → List (List Char)
  | [] => []
  | c :: rest =>
    if p c then piecesBy p rest
    else match rest with
      | [] => [[c]]
      | d :: _ =>
        if p d then [c] :: piecesBy p rest
        else match piecesBy p rest with
          | [] => [[c]]
          | piece :: pieces => (c :: piece) :: pieces

/-- The pieces between white space. -/
def blankWords (s : String) : List String :=
  (piecesBy isBlankChar s.toList).map String.ofList

/-- There is no piece exactly when every character is of the kind that separates. -/
theorem piecesBy_eq_nil_iff (p : Char → Bool) (cs : List Char) :
    piecesBy p cs = [] ↔ ∀ c ∈ cs, p c = true := by
  induction cs with
  | nil => simp [piecesBy]
  | cons c rest ih =>
    unfold piecesBy
    by_cases hc : p c = true
    · simp [hc, ih]
    · cases rest with
      | nil => simp [hc]
      | cons d tail =>
        by_cases hd : p d = true
        · simp [hc, hd]
        · cases piecesBy p (d :: tail) <;> simp [hc, hd]

end PageCompiler
