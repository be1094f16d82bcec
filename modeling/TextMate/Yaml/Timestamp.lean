import TextMate.Calendar

/-!
# Timestamps

The written form of dates and moments: year, month and day with hyphens, and
after them, behind the letter `T` or white space, hours, minutes and seconds
with an optional fraction and an optional distance from universal time.
-/

namespace TextMate
namespace Yaml

/-- The parts of a timestamp behind its date. -/
structure TimeParts where
  hour : Nat
  minute : Nat
  second : Nat
  fraction : List Char
  offset : Option Int
  deriving Repr

/-- The parts of a timestamp, and whether month and day have two digits each. -/
structure TimestampParts where
  year : Nat
  month : Nat
  day : Nat
  fullWidth : Bool
  time : Option TimeParts
  deriving Repr

namespace TimestampParts

def digitsValue (cs : List Char) : Nat :=
  cs.foldl (fun n c => n * 10 + (c.toNat - '0'.toNat)) 0

def takeDigits (least most : Nat) (cs : List Char) : Option (List Char × List Char) :=
  let digits := (cs.take most).takeWhile Char.isDigit
  if digits.length < least then none else some (digits, cs.drop digits.length)

def takeDigitsAfter (mark : Char) (least most : Nat) (cs : List Char) :
    Option (List Char × List Char) :=
  if cs.head? == some mark then takeDigits least most (cs.drop 1) else none

def isSpace (c : Char) : Bool :=
  c == ' ' || c == '\t'

def readOffset (cs : List Char) : Option (Option Int) :=
  match cs.dropWhile isSpace with
  | [] => if cs.isEmpty then some none else none
  | ['Z'] => some (some 0)
  | sign :: rest =>
      if sign == '+' || sign == '-' then do
        let (hours, rest) ← takeDigits 1 2 rest
        let minutes ←
          if rest.isEmpty then some []
          else
            match takeDigitsAfter ':' 2 2 rest with
            | some (digits, []) => some digits
            | _ => none
        let total : Int := digitsValue hours * 60 + digitsValue minutes
        return some (if sign == '-' then -total else total)
      else none

def readTime (cs : List Char) : Option TimeParts := do
  let rest ←
    match cs with
    | [] => none
    | c :: rest =>
        if c == 'T' || c == 't' then some rest
        else if isSpace c then some (rest.dropWhile isSpace)
        else none
  let (hour, rest) ← takeDigits 1 2 rest
  let (minute, rest) ← takeDigitsAfter ':' 2 2 rest
  let (second, rest) ← takeDigitsAfter ':' 2 2 rest
  let fraction :=
    match rest with
    | '.' :: more => more.takeWhile Char.isDigit
    | _ => []
  let rest := if rest.head? == some '.' then rest.drop (fraction.length + 1) else rest
  let offset ← readOffset rest
  return ⟨digitsValue hour, digitsValue minute, digitsValue second, fraction, offset⟩

def read (cs : List Char) : Option TimestampParts := do
  let (year, rest) ← takeDigits 4 4 cs
  let (month, rest) ← takeDigitsAfter '-' 1 2 rest
  let (day, rest) ← takeDigitsAfter '-' 1 2 rest
  let time ← if rest.isEmpty then some none else (readTime rest).map some
  return ⟨digitsValue year, digitsValue month, digitsValue day,
    month.length == 2 && day.length == 2, time⟩

/-- Microseconds from the digits of a fraction of a second; digits beyond the sixth are
dropped. -/
def microseconds (fraction : List Char) : Nat :=
  let digits := fraction.take 6
  digitsValue digits * Nat.pow 10 (6 - digits.length)

end TimestampParts
end Yaml
end TextMate
