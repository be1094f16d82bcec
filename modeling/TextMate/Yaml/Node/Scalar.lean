import TextMate.Yaml.Node
import TextMate.Yaml.Error
import TextMate.Text.Base64
import TextMate.Value.Basic

/-!
# Values of scalars

Each type reads the text of a scalar in its own way; a tag given by the author
does not make the text fit.
-/

namespace TextMate
namespace Yaml

open Decimal Text

def withoutUnderscores (codes : Codes) : Codes :=
  codes.filter (· != '_'.toNat)

/-- Splits off the sign of a number; there has to be a character. -/
def signedBody (codes : Codes) : Except Fault (Bool × Codes) :=
  match codes.chars with
  | [] => .error .emptyNumeral
  | '-' :: _ => .ok (true, codes.drop 1)
  | '+' :: _ => .ok (false, codes.drop 1)
  | _ => .ok (false, codes)

def sixtiethParts (codes : Codes) : List Codes :=
  codes.splitOn ':'.toNat

def intIn (base : Nat) (codes : Codes) : Except Fault Int :=
  match readInt base codes.chars with
  | .ok n => .ok n
  | .error (.tooLong digits) => .error (.tooManyDigits digits)
  | .error .malformed => .error (.notInt base codes)

/-- A whole number: binary, octal, decimal, hexadecimal, or in parts of sixty. -/
def intOfCodes (codes : Codes) : Except Fault Int := do
  let (negative, body) ← signedBody (withoutUnderscores codes)
  let n ←
    match body.chars with
    | [] => .error .emptyNumeral
    | ['0'] => .ok 0
    | '0' :: 'b' :: _ => intIn 2 (body.drop 2)
    | '0' :: 'x' :: _ => intIn 16 (body.drop 2)
    | '0' :: _ => intIn 8 body
    | _ => do
        let parts ← (sixtiethParts body).mapM (intIn 10)
        .ok (parts.foldl (fun n part => n * 60 + part) 0)
  return if negative then -n else n

def floatIn (codes : Codes) : Except Fault Binary64 :=
  match readFloat codes.chars with
  | some x => .ok x
  | none => .error (.notFloat codes)

/-- The sum of parts, the last of them first, each counted sixty times as much as the one
before.  A factor has to be in the range of floating-point numbers. -/
def sumOfSixtieths (sum : Binary64) (factor : Int) : List Binary64 → Except Fault Binary64
  | [] => .ok sum
  | part :: parts =>
      match Binary64.ofInt factor with
      | .finite negative m e =>
          sumOfSixtieths (sum.add (part.mul (.finite negative m e))) (factor * 60) parts
      | _ => .error .largeFactor

def undefinedWord : Codes := Codes.ofChars ".nan".toList

def infiniteWord : Codes := Codes.ofChars ".inf".toList

/-- The body of a number with a point in lower case, and whether it is negative. -/
def floatBody (codes : Codes) : Except Fault (Bool × Codes) :=
  signedBody (withoutUnderscores codes).lowercase

def isUndefinedWord (codes : Codes) : Bool :=
  match floatBody codes with
  | .ok (_, body) => body == undefinedWord
  | .error _ => false

def floatOfCodes (codes : Codes) : Except Fault Binary64 := do
  let (negative, body) ← floatBody codes
  if body == undefinedWord then return .nan
  let x ←
    if body == infiniteWord then pure (Binary64.infinite false)
    else
      match sixtiethParts body with
      | [_] => floatIn body
      | parts => do
          let xs ← parts.mapM floatIn
          sumOfSixtieths (Binary64.ofInt 0) 1 xs.reverse
  return if negative then x.neg else x

def boolOfCodes (codes : Codes) : Except Fault Bool :=
  let lower := codes.lowercase
  let isOneOf (words : List String) : Bool :=
    words.any fun word => Codes.ofChars word.toList == lower
  if isOneOf ["yes", "true", "on"] then .ok true
  else if isOneOf ["no", "false", "off"] then .ok false
  else .error (.notBool lower)

def momentOf (parts : TimestampParts) (time : TimeParts) : Except CalendarFault Value :=
  (Moment.ofParts parts.year parts.month parts.day time.hour time.minute time.second
    (TimestampParts.microseconds time.fraction) time.offset).map Value.moment

def timestampOfCodes (codes : Codes) : Except Fault Value :=
  let cs := codes.chars
  let line := if cs.getLast? == some '\n' then cs.dropLast else cs
  match TimestampParts.read line with
  | none => .error .notTimestamp
  | some parts =>
      let value : Except CalendarFault Value :=
        match parts.time with
        | none => (Date.ofParts parts.year parts.month parts.day).map Value.date
        | some time => momentOf parts time
      value.mapError .calendar

def failAt {α : Type} (mark : Mark) (problem : Problem) : Except Fault α :=
  .error (.flaw ⟨none, none, problem, mark⟩)

def bytesOfCodes (mark : Mark) (codes : Codes) : Except Fault Value :=
  let isForeign (code : Nat) : Bool := 0x80 <= code
  match codes.findIdx? isForeign with
  | some first =>
      let run := (codes.drop first).takeWhile isForeign
      failAt mark (.notAscii first (first + run.length - 1) (run.headD 0))
  | none =>
      match decodeBase64 codes.chars with
      | .ok bytes => .ok (.bytes bytes)
      | .error .incorrectPadding => failAt mark .incorrectPadding
      | .error (.danglingSextet n) => failAt mark (.danglingSextet n)

/-- The text of the scalar with a number.  A mapping has the text of its first default value.
`fuel` is more than the number of nodes, so it is used up by a default value inside itself only. -/
def Nodes.scalarCodes (nodes : Nodes) : Nat → Nat → Except Fault Codes
  | 0, _ => .error .endlessDefault
  | fuel + 1, n =>
      let node := nodes.node n
      match node.content with
      | .scalar codes => .ok codes
      | content =>
          match content.entries.find? fun e => (nodes.node e.1).tag == .default with
          | some e => nodes.scalarCodes fuel e.2
          | none => failAt node.start (.expectedScalar content.form)

def Nodes.scalarValue (nodes : Nodes) (n : Nat) : Except Fault (Value × Codes) := do
  let node := nodes.node n
  let codes := nodes.scalarCodes (nodes.size + 1) n
  let read (value : Codes → Except Fault Value) : Except Fault (Value × Codes) := do
    let codes ← codes
    return (← value codes, codes)
  match node.tag with
  | .null => read fun _ => .ok .null
  | .bool => read fun codes => .bool <$> boolOfCodes codes
  | .int => read fun codes => .int <$> intOfCodes codes
  | .float => read fun codes => .float <$> floatOfCodes codes
  | .binary => read (bytesOfCodes node.start)
  | .timestamp =>
      read fun codes =>
        match node.content with
        | .scalar _ => timestampOfCodes codes
        | _ => .error .entriesForTimestamp
  | .text => read fun codes => .ok (.ofCodes codes)
  | tag => failAt node.start (.unknownTag tag.name)

end Yaml
end TextMate
