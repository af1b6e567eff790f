/-!
# Finite binary floating-point numbers

A finite number of the 64-bit binary format, kept exactly: its sign and its size counted in
units of `2 ^ -1074`, the smallest positive number of the format. Comparing, testing for an
integer and printing are then questions about natural numbers.

* `nearest` rounds a quotient to the format, half to even.
* `scaled?` is the size that a decimal significand and a power of ten denote. The significand
  and the power of ten are each rounded first and their product or quotient is rounded again.
* `shortest` gives the fewest decimal digits that read back as the same number, `text` prints
  them: positional from `1e-5` up to below `1e16`, scientific elsewhere.
-/

namespace PageCompiler

/-- A finite number of the 64-bit binary format, with a zero of either sign. -/
structure Binary64 where
  /-- The number, or the zero, carries a minus sign. -/
  negative : Bool
  /-- The size, counted in units of `2 ^ -1074`. -/
  magnitude : Nat
  deriving DecidableEq, Inhabited, Repr

namespace Binary64

/-! ## Rounding -/

/-- The size of the number one. -/
def one : Nat := Nat.pow 2 1074

/-- Sizes from here on are beyond the finite numbers of the format. -/
def limit : Nat := Nat.pow 2 2098

/-- The distance between neighbouring numbers of the format at a given size: 53 significant
bits are kept. -/
def step (m : Nat) : Nat := if m < Nat.pow 2 53 then 1 else Nat.pow 2 (Nat.log2 m - 52)

/-- The size of the format nearest to `num / den`; a tie goes to the even neighbour. -/
def nearest (num den : Nat) : Nat :=
  let s := step (num / den)
  let q := num / (den * s)
  let r := num % (den * s)
  if 2 * r > den * s || (2 * r = den * s && q % 2 = 1) then (q + 1) * s else q * s

/-- The size of a whole number. -/
def ofNatSize (n : Nat) : Nat := nearest (n * one) 1

/-- A whole number, rounded to the format. -/
def ofInt (n : Int) : Binary64 := ⟨n < 0, ofNatSize n.natAbs⟩

/-- A product of two sizes. -/
def mulSize (a b : Nat) : Nat := nearest (a * b) one

/-- A quotient of two sizes. -/
def divSize (a b : Nat) : Nat := nearest (a * one) b

/-- Multiply or divide a size by a power of ten, at most `10 ^ 308` at a time; nothing if the
result is beyond the format. Three rounds of division bring every 64-bit significand to zero,
so four rounds are enough. -/
def scaleBy : (rounds : Nat) → Nat → Int → Option Nat
  | 0, size, _ => some size
  | rounds + 1, size, exponent =>
    if exponent.natAbs ≤ 308 then
      let power := ofNatSize (Nat.pow 10 exponent.natAbs)
      if 0 ≤ exponent then
        let product := mulSize size power
        if product < limit then some product else none
      else some (divSize size power)
    else if size = 0 then some 0
    else if 0 ≤ exponent then none
    else scaleBy rounds (divSize size (ofNatSize (Nat.pow 10 308))) (exponent + 308)

/-- The size that `significand · 10 ^ exponent` denotes, nothing if it is beyond the format. -/
def scaled? (significand : Nat) (exponent : Int) : Option Nat :=
  scaleBy 4 (ofNatSize significand) exponent

/-! ## Order and whole numbers -/

/-- The value in units of `2 ^ -1074`; both zeros have the value zero. -/
def units (x : Binary64) : Int := if x.negative then -(x.magnitude : Int) else x.magnitude

/-- Equal in value; the sign of zero does not count. -/
def eqv (x y : Binary64) : Bool := x.units == y.units

/-- Less in value. -/
def lt (x y : Binary64) : Bool := x.units < y.units

/-- The whole number that `x` is, if it is one. -/
def toInt? (x : Binary64) : Option Int :=
  if x.magnitude % one = 0 then
    let n : Int := (x.magnitude / one : Nat)
    some (if x.negative then -n else n)
  else none

/-! ## Shortest decimal digits -/

/-- The least `j` with `1 ≤ size · 10 ^ j` in value, looked for from `j` upwards. -/
def leadingZeros (size : Nat) : (fuel : Nat) → (j : Nat) → Nat
  | 0, j => j
  | fuel + 1, j => if one ≤ size * Nat.pow 10 j then j else leadingZeros size fuel (j + 1)

/-- The `e` with `10 ^ (e - 1) ≤ size < 10 ^ e` in value, for a positive size. -/
def decimalExponent (size : Nat) : Int :=
  if one ≤ size then ((Nat.repr (size / one)).length : Int)
  else 1 - (leadingZeros size 400 0 : Nat)

/-- A size, or a decimal, as a fraction over a common denominator: the decimal
`digits · 10 ^ exponent` in quarters of the unit, times `10 ^ -exponent` if the exponent is
negative. -/
def decimalQuarters (digits : Nat) (exponent : Int) : Nat × Nat :=
  if 0 ≤ exponent then (digits * Nat.pow 10 exponent.toNat * (4 * one), 1)
  else (digits * (4 * one), Nat.pow 10 exponent.natAbs)

/-- Whether the decimal `digits · 10 ^ exponent` rounds to the given size. The two halfway
points belong to the size when its significand is even. -/
def readsBack (size digits : Nat) (exponent : Int) : Bool :=
  let s := step size
  let below := if Nat.pow 2 53 ≤ size && size = Nat.pow 2 (Nat.log2 size) then s else 2 * s
  let low := 4 * size - below
  let high := 4 * size + 2 * s
  let (num, den) := decimalQuarters digits exponent
  if (size / s) % 2 = 0 then low * den ≤ num && num ≤ high * den
  else low * den < num && num < high * den

/-- The candidate of a given number of digits: of the two neighbours of the size on that
decimal grid the nearer one that reads back. -/
def candidate (size : Nat) (exponent : Int) : Option (Nat × Int) :=
  let (num, den) : Nat × Nat :=
    if 0 ≤ exponent then (size, one * Nat.pow 10 exponent.toNat)
    else (size * Nat.pow 10 exponent.natAbs, one)
  let low := num / den
  let rest := num % den
  let lowFits := readsBack size low exponent
  let highFits := readsBack size (low + 1) exponent
  if lowFits && highFits then
    some (if 2 * rest < den || (2 * rest = den && low % 2 = 0) then low else low + 1, exponent)
  else if lowFits then some (low, exponent)
  else if highFits then some (low + 1, exponent)
  else none

/-- Move zeros at the end of the digits into the power of ten. -/
def dropZeros : (fuel : Nat) → Nat → Int → Nat × Int
  | 0, digits, exponent => (digits, exponent)
  | fuel + 1, digits, exponent =>
    if digits % 10 = 0 then dropZeros fuel (digits / 10) (exponent + 1) else (digits, exponent)

/-- The fewest digits, and the power of ten they are multiplied by, that read back as the
given positive size. Seventeen digits always do. A neighbour above the size may be the next
power of ten, whose zeros are no digits of their own. -/
def shortest (size : Nat) : Nat × Int :=
  let e := decimalExponent size
  let (digits, exponent) :=
    ((List.range 17).findSome? fun n => candidate size (e - (n + 1 : Nat))).getD (0, 0)
  dropZeros 17 digits exponent

/-! ## Text -/

/-- A run of zeros. -/
def zeros (n : Nat) : String := String.ofList (List.replicate n '0')

/-- The text of a positive size: positional with a fraction from `1e-5` up to below `1e16`,
else one leading digit and a signed exponent. -/
def sizeText (size : Nat) : String :=
  let (digits, exponent) := shortest size
  let body := Nat.repr digits
  let point := (body.length : Int) + exponent
  if 0 ≤ exponent && point ≤ 16 then body ++ zeros exponent.toNat ++ ".0"
  else if 0 < point && point ≤ 16 then
    let (whole, fraction) := body.toList.splitAt point.toNat
    String.ofList whole ++ "." ++ String.ofList fraction
  else if -5 < point && point ≤ 0 then "0." ++ zeros (-point).toNat ++ body
  else
    let (whole, fraction) := body.toList.splitAt 1
    let sign := if 0 ≤ point - 1 then "+" else "-"
    String.ofList whole ++ (if fraction.isEmpty then "" else "." ++ String.ofList fraction)
      ++ "e" ++ sign ++ Nat.repr (point - 1).natAbs

/-- The text of a number: the fewest digits that read back. -/
def text (x : Binary64) : String :=
  (if x.negative then "-" else "") ++ (if x.magnitude = 0 then "0.0" else sizeText x.magnitude)

end Binary64

end PageCompiler
