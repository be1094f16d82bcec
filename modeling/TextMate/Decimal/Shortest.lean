import TextMate.Decimal.Binary64

/-!
# Shortest decimal text

A number is written with the fewest significant digits that read back as the
same number, and with the nearest such digits.  They are set out positionally
from `0.0001` up to, but not including, `10 ^ 16`, always with a digit on both
sides of the point, and with a power of ten of at least two digits elsewhere.
-/

namespace TextMate
namespace Decimal
namespace Binary64

/-- Compares the fraction `num / den` with `10 ^ k`. -/
def belowPowerOfTen (num den : Nat) (k : Int) : Bool :=
  if 0 <= k then num < den * Nat.pow 10 k.toNat else num * Nat.pow 10 (-k).toNat < den

/-- The greatest `k` with `10 ^ k <= num / den`, sought among `fuel` candidates from
`k` down. -/
def decimalOrder (num den : Nat) : Nat → Int → Int
  | 0, k => k
  | fuel + 1, k =>
      if belowPowerOfTen num den k then decimalOrder num den fuel (k - 1) else k

/-- The order of magnitude of a positive fraction: one less than the place of its first
digit before the point. -/
def orderOf (num den : Nat) : Int :=
  let binary : Int := (num.log2 : Int) - (den.log2 : Int)
  decimalOrder num den 8 (binary * 30103 / 100000 + 2)

/-- The two decimals around a fraction with the last digit at the place `10 ^ unit`: the
lower one, and twice the distance to it relative to the unit as a comparison. -/
def decimalFloor (num den : Nat) (unit : Int) : Nat × Ordering :=
  let (n, d) :=
    if 0 <= unit then (num, den * Nat.pow 10 unit.toNat)
    else (num * Nat.pow 10 (-unit).toNat, den)
  (n / d, compare (2 * (n % d)) d)

/-- The digits nearest to the number with so many significant digits that read back. -/
def digitsOfLength (mantissa : Nat) (exponent : Int) (length : Nat) : Option (Nat × Int) :=
  let (num, den) := fraction mantissa exponent
  let unit := orderOf num den - (length : Int) + 1
  let (low, side) := decimalFloor num den unit
  let readsBack (digits : Nat) : Bool :=
    ofDecimal false digits unit == .finite false mantissa exponent
  let candidates :=
    match side with
    | .lt => [low, low + 1]
    | .eq => if low % 2 == 0 then [low, low + 1] else [low + 1, low]
    | .gt => [low + 1, low]
  (candidates.find? readsBack).map fun digits => (digits, unit)

def dropZeros : Nat → Nat → Int → Nat × Int
  | 0, digits, unit => (digits, unit)
  | fuel + 1, digits, unit =>
      if digits % 10 == 0 then dropZeros fuel (digits / 10) (unit + 1) else (digits, unit)

/-- The shortest digits of a positive number and the place of their unit.  Seventeen digits
always suffice. -/
def shortestDigits (mantissa : Nat) (exponent : Int) : Nat × Int :=
  match (List.range 17).findSome? fun n => digitsOfLength mantissa exponent (n + 1) with
  | some (digits, unit) => dropZeros 20 digits unit
  | none => (mantissa, 0)

/-- Digits set out with a point after the first `point` of them. -/
def positional (digits : List Char) (point : Int) : List Char :=
  if point <= 0 then
    ['0', '.'] ++ List.replicate (-point).toNat '0' ++ digits
  else
    let whole := digits.take point.toNat
    let fractional := digits.drop point.toNat
    whole ++ List.replicate (point.toNat - whole.length) '0' ++ ['.']
      ++ (if fractional.isEmpty then ['0'] else fractional)

def scientific (digits : List Char) (power : Int) : List Char :=
  let mantissa :=
    match digits with
    | [] => []
    | [d] => [d]
    | d :: rest => d :: '.' :: rest
  let amount := (toString power.natAbs).toList
  mantissa ++ ['e', if power < 0 then '-' else '+']
    ++ (if amount.length < 2 then '0' :: amount else amount)

def magnitudeText (mantissa : Nat) (exponent : Int) : List Char :=
  if mantissa == 0 then ['0', '.', '0']
  else
    let (digits, unit) := shortestDigits mantissa exponent
    let cs := (toString digits).toList
    let point := unit + (cs.length : Int)
    if -4 < point && point <= 16 then positional cs point else scientific cs (point - 1)

def text : Binary64 → String
  | nan => "nan"
  | infinite negative => if negative then "-inf" else "inf"
  | finite negative m e =>
      String.ofList ((if negative then ['-'] else []) ++ magnitudeText m e)

end Binary64
end Decimal
end TextMate
