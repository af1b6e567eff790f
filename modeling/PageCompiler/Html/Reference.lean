import PageCompiler.Text.Casing

/-!
# Character references

The references of HTML markup, `&name;` and `&#number;`. Some names count even when no
semicolon follows; the longest such name wins, unless the reference stands in an attribute and
a letter, a digit or an equals sign follows. A number that denotes no character stands for the
replacement character, and the numbers from 128 to 159 mean what they mean in Windows code
page 1252.
-/

namespace PageCompiler.Html

/-- Names that count without a semicolon, with their code points. -/
def openNames : List (String × Nat) := [
  ("AElig", 0xc6), ("AMP", 0x26), ("Aacute", 0xc1), ("Acirc", 0xc2), ("Agrave", 0xc0),
  ("Aring", 0xc5), ("Atilde", 0xc3), ("Auml", 0xc4), ("COPY", 0xa9), ("Ccedil", 0xc7),
  ("ETH", 0xd0), ("Eacute", 0xc9), ("Ecirc", 0xca), ("Egrave", 0xc8), ("Euml", 0xcb),
  ("GT", 0x3e), ("Iacute", 0xcd), ("Icirc", 0xce), ("Igrave", 0xcc), ("Iuml", 0xcf),
  ("LT", 0x3c), ("Ntilde", 0xd1), ("Oacute", 0xd3), ("Ocirc", 0xd4), ("Ograve", 0xd2),
  ("Oslash", 0xd8), ("Otilde", 0xd5), ("Ouml", 0xd6), ("QUOT", 0x22), ("REG", 0xae),
  ("THORN", 0xde), ("Uacute", 0xda), ("Ucirc", 0xdb), ("Ugrave", 0xd9), ("Uuml", 0xdc),
  ("Yacute", 0xdd), ("aacute", 0xe1), ("acirc", 0xe2), ("acute", 0xb4), ("aelig", 0xe6),
  ("agrave", 0xe0), ("amp", 0x26), ("aring", 0xe5), ("atilde", 0xe3), ("auml", 0xe4),
  ("brvbar", 0xa6), ("ccedil", 0xe7), ("cedil", 0xb8), ("cent", 0xa2), ("copy", 0xa9),
  ("curren", 0xa4), ("deg", 0xb0), ("divide", 0xf7), ("eacute", 0xe9), ("ecirc", 0xea),
  ("egrave", 0xe8), ("eth", 0xf0), ("euml", 0xeb), ("frac12", 0xbd), ("frac14", 0xbc),
  ("frac34", 0xbe), ("gt", 0x3e), ("iacute", 0xed), ("icirc", 0xee), ("iexcl", 0xa1),
  ("igrave", 0xec), ("iquest", 0xbf), ("iuml", 0xef), ("laquo", 0xab), ("lt", 0x3c),
  ("macr", 0xaf), ("micro", 0xb5), ("middot", 0xb7), ("nbsp", 0xa0), ("not", 0xac),
  ("ntilde", 0xf1), ("oacute", 0xf3), ("ocirc", 0xf4), ("ograve", 0xf2), ("ordf", 0xaa),
  ("ordm", 0xba), ("oslash", 0xf8), ("otilde", 0xf5), ("ouml", 0xf6), ("para", 0xb6),
  ("plusmn", 0xb1), ("pound", 0xa3), ("quot", 0x22), ("raquo", 0xbb), ("reg", 0xae),
  ("sect", 0xa7), ("shy", 0xad), ("sup1", 0xb9), ("sup2", 0xb2), ("sup3", 0xb3), ("szlig", 0xdf),
  ("thorn", 0xfe), ("times", 0xd7), ("uacute", 0xfa), ("ucirc", 0xfb), ("ugrave", 0xf9),
  ("uml", 0xa8), ("uuml", 0xfc), ("yacute", 0xfd), ("yen", 0xa5), ("yuml", 0xff)]

/-- Names that count with a semicolon only, with their code points. -/
def closedNames : List (String × Nat) := [
  ("Alpha", 0x391), ("Beta", 0x392), ("Chi", 0x3a7), ("Dagger", 0x2021), ("Delta", 0x394),
  ("Epsilon", 0x395), ("Eta", 0x397), ("Gamma", 0x393), ("Iota", 0x399), ("Kappa", 0x39a),
  ("Lambda", 0x39b), ("Mu", 0x39c), ("Nu", 0x39d), ("OElig", 0x152), ("Omega", 0x3a9),
  ("Omicron", 0x39f), ("Phi", 0x3a6), ("Pi", 0x3a0), ("Prime", 0x2033), ("Psi", 0x3a8),
  ("Rho", 0x3a1), ("Scaron", 0x160), ("Sigma", 0x3a3), ("Tau", 0x3a4), ("Theta", 0x398),
  ("Upsilon", 0x3a5), ("Xi", 0x39e), ("Yuml", 0x178), ("Zeta", 0x396), ("alefsym", 0x2135),
  ("alpha", 0x3b1), ("and", 0x2227), ("ang", 0x2220), ("apos", 0x27), ("asymp", 0x2248),
  ("bdquo", 0x201e), ("beta", 0x3b2), ("bull", 0x2022), ("cap", 0x2229), ("chi", 0x3c7),
  ("circ", 0x2c6), ("clubs", 0x2663), ("cong", 0x2245), ("crarr", 0x21b5), ("cup", 0x222a),
  ("dArr", 0x21d3), ("dagger", 0x2020), ("darr", 0x2193), ("delta", 0x3b4), ("diams", 0x2666),
  ("empty", 0x2205), ("emsp", 0x2003), ("ensp", 0x2002), ("epsilon", 0x3b5), ("equiv", 0x2261),
  ("eta", 0x3b7), ("euro", 0x20ac), ("exist", 0x2203), ("fnof", 0x192), ("forall", 0x2200),
  ("frasl", 0x2044), ("gamma", 0x3b3), ("ge", 0x2265), ("hArr", 0x21d4), ("harr", 0x2194),
  ("hearts", 0x2665), ("hellip", 0x2026), ("image", 0x2111), ("infin", 0x221e), ("int", 0x222b),
  ("iota", 0x3b9), ("isin", 0x2208), ("kappa", 0x3ba), ("lArr", 0x21d0), ("lambda", 0x3bb),
  ("lang", 0x2329), ("larr", 0x2190), ("lceil", 0x2308), ("ldquo", 0x201c), ("le", 0x2264),
  ("lfloor", 0x230a), ("lowast", 0x2217), ("loz", 0x25ca), ("lrm", 0x200e), ("lsaquo", 0x2039),
  ("lsquo", 0x2018), ("mdash", 0x2014), ("minus", 0x2212), ("mu", 0x3bc), ("nabla", 0x2207),
  ("ndash", 0x2013), ("ne", 0x2260), ("ni", 0x220b), ("notin", 0x2209), ("nsub", 0x2284),
  ("nu", 0x3bd), ("oelig", 0x153), ("oline", 0x203e), ("omega", 0x3c9), ("omicron", 0x3bf),
  ("oplus", 0x2295), ("or", 0x2228), ("otimes", 0x2297), ("part", 0x2202), ("permil", 0x2030),
  ("perp", 0x22a5), ("phi", 0x3c6), ("pi", 0x3c0), ("piv", 0x3d6), ("prime", 0x2032),
  ("prod", 0x220f), ("prop", 0x221d), ("psi", 0x3c8), ("rArr", 0x21d2), ("radic", 0x221a),
  ("rang", 0x232a), ("rarr", 0x2192), ("rceil", 0x2309), ("rdquo", 0x201d), ("real", 0x211c),
  ("rfloor", 0x230b), ("rho", 0x3c1), ("rlm", 0x200f), ("rsaquo", 0x203a), ("rsquo", 0x2019),
  ("sbquo", 0x201a), ("scaron", 0x161), ("sdot", 0x22c5), ("sigma", 0x3c3), ("sigmaf", 0x3c2),
  ("sim", 0x223c), ("spades", 0x2660), ("sub", 0x2282), ("sube", 0x2286), ("sum", 0x2211),
  ("sup", 0x2283), ("supe", 0x2287), ("tau", 0x3c4), ("there4", 0x2234), ("theta", 0x3b8),
  ("thetasym", 0x3d1), ("thinsp", 0x2009), ("tilde", 0x2dc), ("trade", 0x2122), ("uArr", 0x21d1),
  ("uarr", 0x2191), ("upsih", 0x3d2), ("upsilon", 0x3c5), ("weierp", 0x2118), ("xi", 0x3be),
  ("zeta", 0x3b6), ("zwj", 0x200d), ("zwnj", 0x200c)]

/-- The code points that the numbers from 128 to 159 stand for. -/
def windowsCodes : List Nat := [
  0x20ac, 0x81, 0x201a, 0x192, 0x201e, 0x2026, 0x2020, 0x2021, 0x2c6, 0x2030, 0x160, 0x2039,
  0x152, 0x8d, 0x17d, 0x8f, 0x90, 0x2018, 0x2019, 0x201c, 0x201d, 0x2022, 0x2013, 0x2014,
  0x2dc, 0x2122, 0x161, 0x203a, 0x153, 0x9d, 0x17e, 0x178]

/-- The character of a number. -/
def numberedChar (n : Nat) : Char :=
  let n := if 128 ≤ n && n ≤ 159 then windowsCodes.getD (n - 128) n else n
  if n = 0 || (0xD800 ≤ n && n ≤ 0xDFFF) || 0x10FFFF < n then Char.ofNat 0xFFFD
  else Char.ofNat n

/-- The value of a hexadecimal digit. -/
def hexValue? (c : Char) : Option Nat :=
  if c.isDigit then some (c.toNat - 48)
  else if 'a' ≤ c && c ≤ 'f' then some (c.toNat - 87)
  else if 'A' ≤ c && c ≤ 'F' then some (c.toNat - 55)
  else none

/-- Drop a semicolon. -/
def dropSemicolon : List Char → List Char
  | ';' :: rest => rest
  | cs => cs

/-- The character of a numeric reference, from what stands behind `&#`, and the rest. -/
def numericReference? (cs : List Char) : Option (Char × List Char) :=
  let (base, digits) : Nat × List Char := match cs with
    | 'x' :: rest | 'X' :: rest => (16, rest)
    | _ => (10, cs)
  let isDigit (c : Char) : Bool := if base = 16 then (hexValue? c).isSome else c.isDigit
  let number := digits.takeWhile isDigit
  if number.isEmpty then none
  else
    let value := number.foldl (fun n c => min 0x110000 (base * n + (hexValue? c).getD 0)) 0
    some (numberedChar value, dropSemicolon (digits.dropWhile isDigit))

/-- The longest name of a list that a text begins with, and the rest. -/
def longestName? (names : List (String × Nat)) (cs : List Char) : Option (Nat × List Char) :=
  let found := names.filter fun entry => entry.1.toList.isPrefixOf cs
  let best := found.foldl (fun best entry =>
    match best with
    | some (name, _) => if name.length < entry.1.length then some entry else best
    | none => some entry) (none : Option (String × Nat))
  best.map fun (name, code) => (code, cs.drop name.length)

/-- The character of a named reference, from what stands behind `&`, and the rest. -/
def namedReference? (inAttribute : Bool) (cs : List Char) : Option (Char × List Char) :=
  let name := String.ofList (cs.takeWhile (·.isAlphanum))
  let after := cs.dropWhile (·.isAlphanum)
  match after.head?, (openNames ++ closedNames).lookup name with
  | some ';', some code => some (Char.ofNat code, after.drop 1)
  | _, _ =>
    match longestName? openNames cs with
    | none => none
    | some (code, rest) =>
      let continues := match rest with
        | c :: _ => c.isAlphanum || c = '='
        | [] => false
      if inAttribute && continues then none else some (Char.ofNat code, dropSemicolon rest)

/-- The character of a reference, from what stands behind `&`, and the rest. -/
def reference? (inAttribute : Bool) : List Char → Option (Char × List Char)
  | '#' :: rest => numericReference? rest
  | cs => namedReference? inAttribute cs

/-- The text with its references replaced by their characters. Each round reads at least one
character. -/
def decode (inAttribute : Bool) : (fuel : Nat) → List Char → List Char
  | 0, cs => cs
  | _, [] => []
  | fuel + 1, '&' :: rest =>
    match reference? inAttribute rest with
    | some (c, after) => c :: decode inAttribute fuel after
    | none => '&' :: decode inAttribute fuel rest
  | fuel + 1, c :: rest => c :: decode inAttribute fuel rest

end PageCompiler.Html
