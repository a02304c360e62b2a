/-
# Double-precision numbers

A number that a document writes with a fraction or an exponent is a double of IEEE 754.  It is kept
decoded, as a sign, a mantissa and a power of two, and all arithmetic on it is exact arithmetic of
natural numbers:

- `Double.ofRatio` rounds a quotient to the nearest double, a tie to the even mantissa;
- `Double.ofDecimal` reads a decimal numeral that way;
- `Double.isIntegral` and `Double.toInt` say which doubles are integers, and which integer.

A finite double is kept in the form that the encoding of the standard has: the mantissa is below
2^53, the exponent at least -1074, and the mantissa is below 2^52 only when the exponent is -1074.
-/

namespace SchemaAssist.Json

/-! ## 1. The type -/

/-- A double-precision number. -/
inductive Double where
  /-- The number `mantissa · 2 ^ exponent`, negated if `negative`; zeros are signed too. -/
  | finite (negative : Bool) (mantissa : Nat) (exponent : Int)
  | infinity (negative : Bool)
  | nan
  deriving DecidableEq, Repr, Inhabited

/-! ## 2. Powers and quotients -/

/-- The quotient `p / q` times `base ^ k`, as a quotient again. -/
def scale (base : Nat) (k : Int) (p q : Nat) : Nat × Nat :=
  (p * Nat.pow base k.toNat, q * Nat.pow base (-k).toNat)

/-- The greatest `k` with `base ^ k ≤ p / q`, for positive `p` and `q`. -/
def floorLog (base p q : Nat) : Int :=
  let k : Int := ((Nat.toDigits base p).length : Int) - (Nat.toDigits base q).length
  let (p', q') := scale base (-k) p q
  if q' ≤ p' then k else k - 1

/-- The integer nearest to `p / q`, a tie going to the even one. -/
def roundHalfEven (p q : Nat) : Nat :=
  let d := p / q
  let r := p % q
  if 2 * r < q then d
  else if q < 2 * r then d + 1
  else d + d % 2

namespace Double

/-! ## 3. Rounding -/

/-- The greatest exponent of a finite double. -/
def maxExponent : Int := 971

/-- The least exponent of a finite double. -/
def minExponent : Int := -1074

/-- The least mantissa whose exponent is not forced to be the least one: 2^52. -/
def leastNormal : Nat := 0x10000000000000

/-- The first number that is no mantissa: 2^53. -/
def mantissaEnd : Nat := 0x20000000000000

/-- The zero of a sign. -/
def zero (negative : Bool) : Double := .finite negative 0 minExponent

/-- The double nearest to `p / q`, a tie going to the even mantissa, and infinity beyond the
greatest finite double. -/
def ofRatio (negative : Bool) (p q : Nat) : Double :=
  if p = 0 then zero negative
  else
    let e := max (floorLog 2 p q - 52) minExponent
    let (p', q') := scale 2 (-e) p q
    let m := roundHalfEven p' q'
    let (m, e) := if m = mantissaEnd then (leastNormal, e + 1) else (m, e)
    if maxExponent < e then .infinity negative
    else if m = 0 then zero negative
    else .finite negative m e

/-- The double nearest to `digits · 10 ^ exponent`. -/
def ofDecimal (negative : Bool) (digits : Nat) (exponent : Int) : Double :=
  let magnitude : Int := (Nat.toDigits 10 digits).length + exponent
  if digits = 0 then zero negative
  else if 400 < magnitude then .infinity negative
  else if magnitude < -400 then zero negative
  else
    let (p, q) := scale 10 exponent digits 1
    ofRatio negative p q

example : ofDecimal false 1 (-1) = .finite false 7205759403792794 (-56) := by decide +kernel

/-! ## 4. Integers -/

/-- Whether a double is an integer. -/
def isIntegral : Double → Bool
  | .finite _ m e => 0 ≤ e || m % Nat.pow 2 (-e).toNat == 0
  | _ => false

/-- The integer that a double is, or the nearest one towards zero. -/
def toInt : Double → Int
  | .finite negative m e =>
    let (p, q) := scale 2 e m 1
    if negative then -((p / q : Nat) : Int) else ((p / q : Nat) : Int)
  | _ => 0

/-- Whether a double is one of the two zeros. -/
def isZero : Double → Bool
  | .finite _ m _ => m == 0
  | _ => false

/-- Whether a double is neither an infinity nor NaN. -/
def isFinite : Double → Bool
  | .finite .. => true
  | _ => false

end Double

end SchemaAssist.Json
