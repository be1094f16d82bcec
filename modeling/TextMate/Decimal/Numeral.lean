import TextMate.Text.Digits
import TextMate.Decimal.Binary64

/-!
# Numerals

Reading of whole numbers and of decimals with fraction and power of ten.  A
numeral may stand between white space and have a sign, and single underscores may
separate its digits; the decimal digits of every script are accepted.  A decimal
numeral of a whole number has at most 4300 digits, which are counted before
anything behind them is looked at.
-/

namespace TextMate
namespace Decimal

open Text

def maxDigits : Nat := 4300

/-- Why a text is not the numeral of a whole number. -/
inductive NumeralFault where
  | malformed
  | tooLong (digits : Nat)
  deriving DecidableEq, Repr

/-- The words for a limit on digits that is exceeded, with what is said in between. -/
def limitText (between : String) : String :=
  "Exceeds the limit (" ++ toString maxDigits ++ " digits) for integer string conversion"
    ++ between ++ "; use sys.set_int_max_str_digits() to increase the limit"

def tooLongText (digits : Nat) : String :=
  limitText (": value has " ++ toString digits ++ " digits")

def digitValue? (c : Char) : Option Nat :=
  match decimalValue? c with
  | some n => some n
  | none =>
      if 'a' <= c && c <= 'f' then some (c.toNat - 'a'.toNat + 10)
      else if 'A' <= c && c <= 'F' then some (c.toNat - 'A'.toNat + 10)
      else none

def digitIn? (base : Nat) (c : Char) : Option Nat :=
  (digitValue? c).filter (· < base)

/-- The values of the digits of a numeral, single underscores between them left out. -/
def digitValues? (base : Nat) : List Char → Option (List Nat)
  | [] => none
  | [c] => (digitIn? base c).map fun d => [d]
  | c :: '_' :: rest => do
      let d ← digitIn? base c
      let ds ← digitValues? base rest
      return d :: ds
  | c :: rest => do
      let d ← digitIn? base c
      let ds ← digitValues? base rest
      return d :: ds

def ofDigits (base : Nat) (digits : List Nat) : Nat :=
  digits.foldl (fun n d => n * base + d) 0

/-- Splits off a sign: whether it is negative, and the rest. -/
def splitSign : List Char → Bool × List Char
  | '-' :: rest => (true, rest)
  | '+' :: rest => (false, rest)
  | cs => (false, cs)

def dropBaseMark (base : Nat) (cs : List Char) : List Char :=
  let marks : List Char :=
    if base == 2 then ['b', 'B'] else if base == 8 then ['o', 'O']
    else if base == 16 then ['x', 'X'] else []
  match cs with
  | '0' :: mark :: '_' :: rest => if marks.contains mark then rest else cs
  | '0' :: mark :: rest => if marks.contains mark then rest else cs
  | _ => cs

def readInt (base : Nat) (cs : List Char) : Except NumeralFault Int :=
  let (negative, cs) := splitSign (trim isSpace cs)
  let body := dropBaseMark base cs
  let run := body.takeWhile fun c => c == '_' || (digitIn? base c).isSome
  match digitValues? base run with
  | none => .error .malformed
  | some digits =>
      if base == 10 && maxDigits < digits.length then .error (.tooLong digits.length)
      else if run.length < body.length then .error .malformed
      else
        let n : Int := ofDigits base digits
        .ok (if negative then -n else n)

def takeDigits : List Char → List Nat × List Char
  | [] => ([], [])
  | c :: '_' :: next :: rest =>
      match decimalValue? c with
      | none => ([], c :: '_' :: next :: rest)
      | some d =>
          if (decimalValue? next).isSome then
            let (ds, left) := takeDigits (next :: rest)
            (d :: ds, left)
          else ([d], '_' :: next :: rest)
  | c :: rest =>
      match decimalValue? c with
      | none => ([], c :: rest)
      | some d =>
          let (ds, left) := takeDigits rest
          (d :: ds, left)

/-- The power of ten at the end of a decimal numeral; no more may follow it. -/
def readPower : List Char → Option Int
  | [] => some 0
  | c :: rest =>
      if c == 'e' || c == 'E' then
        let (negative, cs) := splitSign rest
        match takeDigits cs with
        | (d :: ds, []) =>
            let n : Int := ofDigits 10 (d :: ds)
            some (if negative then -n else n)
        | _ => none
      else none

def readMagnitude (negative : Bool) (cs : List Char) : Option Binary64 :=
  let (whole, rest) := takeDigits cs
  let (fractional, rest) :=
    match rest with
    | '.' :: rest => takeDigits rest
    | rest => ([], rest)
  if whole.isEmpty && fractional.isEmpty then none
  else
    (readPower rest).map fun power =>
      Binary64.ofDecimal negative (ofDigits 10 (whole ++ fractional))
        (power - (fractional.length : Int))

def readFloat (cs : List Char) : Option Binary64 :=
  let (negative, cs) := splitSign (trim isSpace cs)
  let word := cs.map Char.toLower
  if word == "inf".toList || word == "infinity".toList then some (.infinite negative)
  else if word == "nan".toList then some .nan
  else readMagnitude negative cs

end Decimal
end TextMate
