/-!
# Binary floating-point numbers

Numbers of the 64-bit binary format as exact data: a sign, a natural mantissa
and a power of two.  A mantissa has at most 53 bits; it has exactly 53 unless
the exponent is the least one.  Every operation is computed exactly and rounded
once, to the nearest number, a tie going to the even mantissa.
-/

namespace TextMate
namespace Decimal

inductive Binary64 where
  | nan
  | infinite (negative : Bool)
  | finite (negative : Bool) (mantissa : Nat) (exponent : Int)
  deriving DecidableEq, Repr, Inhabited

namespace Binary64

def minExponent : Int := -1074

def maxExponent : Int := 971

/-- The least mantissa of 53 bits; a smaller one has the least exponent. -/
def hiddenBit : Nat := 4503599627370496

/-- The quotient of two naturals, rounded to the nearest, a tie to the even one. -/
def roundQuotient (num den : Nat) : Nat :=
  let q := num / den
  let twice := 2 * (num % den)
  if twice < den then q
  else if den < twice then q + 1
  else if q % 2 == 0 then q else q + 1

/-- The fraction `num / (den * 2 ^ e)` as numerator and denominator. -/
def scaleBinary (num den : Nat) (e : Int) : Nat × Nat :=
  if 0 <= e then (num, den * Nat.pow 2 e.toNat) else (num * Nat.pow 2 (-e).toNat, den)

/-- The exponent that gives the fraction a mantissa of 53 bits, if it is not too small. -/
def exponentOf (num den : Nat) : Int :=
  let guess : Int := (num.log2 : Int) - (den.log2 : Int) - 52
  let (n, d) := scaleBinary num den guess
  max minExponent (if n < d * hiddenBit then guess - 1 else guess)

def ofFraction (negative : Bool) (num den : Nat) : Binary64 :=
  if num == 0 then .finite negative 0 minExponent
  else
    let e := exponentOf num den
    let (n, d) := scaleBinary num den e
    let m := roundQuotient n d
    let (m, e) := if m == 2 * hiddenBit then (hiddenBit, e + 1) else (m, e)
    if maxExponent < e then .infinite negative else .finite negative m e

/-- The number nearest to `digits * 10 ^ exponent`.  Beyond four hundred places the answer
is already decided, so no huge power is computed. -/
def ofDecimal (negative : Bool) (digits : Nat) (exponent : Int) : Binary64 :=
  if digits == 0 then .finite negative 0 minExponent
  else if 400 < exponent then .infinite negative
  else if exponent + (digits.log2 : Int) + 1 < -400 then .finite negative 0 minExponent
  else if 0 <= exponent then ofFraction negative (digits * Nat.pow 10 exponent.toNat) 1
  else ofFraction negative digits (Nat.pow 10 (-exponent).toNat)

def ofInt (n : Int) : Binary64 :=
  ofFraction (n < 0) n.natAbs 1

def fraction (mantissa : Nat) (exponent : Int) : Nat × Nat :=
  if 0 <= exponent then (mantissa * Nat.pow 2 exponent.toNat, 1)
  else (mantissa, Nat.pow 2 (-exponent).toNat)

def neg : Binary64 → Binary64
  | nan => nan
  | infinite negative => infinite !negative
  | finite negative m e => finite (!negative) m e

def add : Binary64 → Binary64 → Binary64
  | nan, _ => nan
  | _, nan => nan
  | infinite a, infinite b => if a == b then infinite a else nan
  | infinite a, finite _ _ _ => infinite a
  | finite _ _ _, infinite b => infinite b
  | finite a m e, finite b n f =>
      let (p, q) := fraction m e
      let (r, s) := fraction n f
      let x : Int := (if a then -1 else 1) * ((p * s : Nat) : Int)
      let y : Int := (if b then -1 else 1) * ((r * q : Nat) : Int)
      let sum := x + y
      ofFraction (if sum == 0 then a && b else sum < 0) sum.natAbs (q * s)

def mul : Binary64 → Binary64 → Binary64
  | nan, _ => nan
  | _, nan => nan
  | infinite a, infinite b => infinite (a != b)
  | infinite a, finite b n _ => if n == 0 then nan else infinite (a != b)
  | finite a m _, infinite b => if m == 0 then nan else infinite (a != b)
  | finite a m e, finite b n f =>
      let (p, q) := fraction m e
      let (r, s) := fraction n f
      ofFraction (a != b) (p * r) (q * s)

def toInt? : Binary64 → Option Int
  | nan => none
  | infinite _ => none
  | finite negative m e =>
      let (num, den) := fraction m e
      if num % den == 0 then
        some (if negative then -((num / den : Nat) : Int) else ((num / den : Nat) : Int))
      else none

/-- Equality of numbers: nothing equals the undefined number, and both zeros are equal. -/
def same : Binary64 → Binary64 → Bool
  | nan, _ => false
  | _, nan => false
  | finite a m e, finite b n f => (m == 0 && n == 0) || (a == b && m == n && e == f)
  | x, y => x == y

end Binary64

end Decimal
end TextMate
