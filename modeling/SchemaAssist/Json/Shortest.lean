/-
# The shortest decimal text of a double

A double is written with the fewest decimal digits that read back as the same double, and of the
texts of that length the one nearest to it.

The reals that round to a double form an interval around it, its ends included exactly when the
mantissa is even.  On the grid of numbers with `n` digits only the two neighbours of the double can
lie in the interval and be nearest, so the first `n` whose neighbours hit the interval decides.

How digits and exponent are laid out is fixed by a `NumberStyle`: the exponents that are written
positionally, and the names of the values that have no digits.
-/
import SchemaAssist.Json.Double

namespace SchemaAssist.Json

/-! ## 1. Digits -/

/-- `digits · 10 ^ exponent` without trailing zeros in `digits`. -/
def dropTrailingZeros (digits : Nat) (exponent : Int) : Nat × Int :=
  if h : digits ≠ 0 ∧ digits % 10 = 0 then dropTrailingZeros (digits / 10) (exponent + 1)
  else (digits, exponent)
termination_by digits
decreasing_by omega

/-- Of the two neighbours of `p / q` on the integers, the one that lies between `low / q` and
`high / q`, or the nearer of the two if both do; the ends belong to the interval if `closed`. -/
def neighbourWithin (p q low high : Nat) (closed : Bool) : Option Nat :=
  let inside (x : Nat) : Bool :=
    if closed then low ≤ x * q && x * q ≤ high else low < x * q && x * q < high
  let d := p / q
  match inside d, inside (d + 1) with
  | true, true =>
    let below := p - d * q
    let above := (d + 1) * q - p
    if below < above then some d
    else if above < below then some (d + 1)
    else some (d + d % 2)
  | true, false => some d
  | false, true => some (d + 1)
  | false, false => none

/-- The decimal `digits · 10 ^ exponent` with `count` digits that reads back as the positive double
`m · 2 ^ e` and is nearest to it, if there is one. -/
def decimalOfLength (m : Nat) (e : Int) (count : Nat) : Option (Nat × Int) :=
  let gap := if m = Double.leastNormal ∧ Double.minExponent < e then 1 else 2
  let (p, q) := scale 2 (e - 2) (4 * m) 1
  let grid := floorLog 10 p q + 1 - count
  let (f, q) := scale 2 (e - 2) 1 1
  let (f, q) := scale 10 (-grid) f q
  (neighbourWithin (4 * m * f) q ((4 * m - gap) * f) ((4 * m + 2) * f) (m % 2 == 0)).map
    fun d => (d, grid)

/-- The digits and the exponent of the shortest decimal that reads back as `m · 2 ^ e`. -/
def shortestDecimal (m : Nat) (e : Int) : Nat × Int :=
  if m = 0 then (0, 0)
  else
    match (List.range 17).findSome? fun n => decimalOfLength m e (n + 1) with
    | some (d, k) => dropTrailingZeros d k
    | none => (m, e)

/-! ## 2. Layout -/

/-- How doubles are laid out as text. -/
structure NumberStyle where
  /-- The least power of ten of a leading digit that is written positionally. -/
  leastPositional : Int
  /-- The first power of ten of a leading digit that is written with an exponent again. -/
  firstExponential : Int
  /-- The least number of digits of an exponent. -/
  exponentWidth : Nat
  infinity : List Char
  nan : List Char

/-- Doubles in JSON text: positional from 0.0001 to below 10^16, exponents of at least two digits. -/
def NumberStyle.json : NumberStyle where
  leastPositional := -4
  firstExponential := 16
  exponentWidth := 2
  infinity := "Infinity".toList
  nan := "NaN".toList

/-- Doubles in running text: as in JSON, but the values without digits are called `inf` and
`nan`. -/
def NumberStyle.plain : NumberStyle :=
  { NumberStyle.json with infinity := "inf".toList, nan := "nan".toList }

/-- An exponent with its sign, padded with zeros to `width` digits. -/
def exponentText (width : Nat) (k : Int) : List Char :=
  let digits := Nat.toDigits 10 k.natAbs
  (if k < 0 then '-' else '+') :: (List.replicate (width - digits.length) '0' ++ digits)

/-- The digits `ds` with their point after the first `point` of them, in positional notation. -/
def positionalText (ds : List Char) (point : Int) : List Char :=
  if point ≤ 0 then '0' :: '.' :: (List.replicate (-point).toNat '0' ++ ds)
  else if (ds.length : Int) ≤ point then
    ds ++ List.replicate (point.toNat - ds.length) '0' ++ ['.', '0']
  else ds.take point.toNat ++ '.' :: ds.drop point.toNat

/-- The digits `ds` with a point after the first of them and the exponent `k`. -/
def exponentialText (width : Nat) (ds : List Char) (k : Int) : List Char :=
  let fraction := ds.drop 1
  ds.take 1 ++ (if fraction.isEmpty then [] else '.' :: fraction) ++ 'e' :: exponentText width k

/-- The text of a double. -/
def Double.text (style : NumberStyle) : Double → List Char
  | .nan => style.nan
  | .infinity negative => (if negative then ['-'] else []) ++ style.infinity
  | .finite negative m e =>
    let (d, k) := shortestDecimal m e
    let ds := Nat.toDigits 10 d
    let lead : Int := ds.length + k - 1
    (if negative then ['-'] else []) ++
      if style.leastPositional ≤ lead ∧ lead < style.firstExponential then
        positionalText ds (lead + 1)
      else exponentialText style.exponentWidth ds lead

end SchemaAssist.Json
