import TextMate.Value.Text
import TextMate.Decimal.Numeral

/-!
# Problems with a value

A problem names a place inside a value and says what is wrong there.  A check
does not stop at the first problem: its verdict is either what it accepts or all
problems, in the order in which the parts of a value are looked at.
-/

namespace TextMate
namespace Schema

/-- One step on the way to a part of a value. -/
inductive Step where
  | key (name : String)
  | index (n : Int)
  deriving DecidableEq, Repr

def wordBound : Int := 9223372036854775808

def isTooLong (n : Int) : Bool :=
  Nat.pow 10 Decimal.maxDigits <= n.natAbs

/-- The step to the value under a key: whole numbers of 64 bits and truth values count as
numbers, and what is no text shows its quoted form. -/
def Step.ofKey : Value → Step
  | .text s => .key s
  | .broken codes => .key codes.shown
  | .int n =>
      if -wordBound <= n && n < wordBound then .index n
      else if isTooLong n then .key "<unprintable int object>"
      else .key (toString n)
  | .bool b => .index (if b then 1 else 0)
  | v => .key v.quotedForm

inductive Mismatch where
  | missing
  | extra
  | keyType
  | text
  | brokenText
  | list
  | dict
  | model (kind : Kind)
  | pattern
  | recursion
  | int
  | intText
  | intFraction
  | intSize
  | finite
  | longKey
  deriving DecidableEq, Repr

def Mismatch.code : Mismatch → String
  | .missing => "missing"
  | .extra => "extra_forbidden"
  | .keyType => "invalid_key"
  | .text => "string_type"
  | .brokenText => "string_unicode"
  | .list => "list_type"
  | .dict => "dict_type"
  | .model _ => "model_type"
  | .pattern => "union_tag_not_found"
  | .recursion => "recursion_loop"
  | .int => "int_type"
  | .intText => "int_parsing"
  | .intFraction => "int_from_float"
  | .intSize => "int_parsing_size"
  | .finite => "finite_number"
  | .longKey => "value_error"

def Mismatch.message : Mismatch → String
  | .missing => "Field required"
  | .extra => "Extra inputs are not permitted"
  | .keyType => "Keys should be strings"
  | .text => "Input should be a valid string"
  | .brokenText =>
      "Input should be a valid string, unable to parse raw data as a unicode string"
  | .list => "Input should be a valid list"
  | .dict => "Input should be a valid dictionary"
  | .model kind => "Input should be a valid dictionary or instance of " ++ kind.title
  | .pattern => "Unable to extract tag using discriminator _pattern_tag()"
  | .recursion => "Recursion error - cyclic reference detected"
  | .int => "Input should be a valid integer"
  | .intText => "Input should be a valid integer, unable to parse string as an integer"
  | .intFraction => "Input should be a valid integer, got a number with a fractional part"
  | .intSize => "Unable to parse input string as an integer, exceeded maximum size"
  | .finite => "Input should be a finite number"
  | .longKey => "Value error, " ++ Decimal.limitText ""

structure Problem where
  place : List Step
  mismatch : Mismatch
  deriving DecidableEq, Repr

inductive Verdict (α : Type) where
  | accepted (a : α)
  | rejected (problems : List Problem)

namespace Verdict

variable {α β : Type}

def map (f : α → β) : Verdict α → Verdict β
  | accepted a => accepted (f a)
  | rejected ps => rejected ps

/-- Combines two checks; the problems of both are kept. -/
def seq (f : Verdict (α → β)) (x : Unit → Verdict α) : Verdict β :=
  match f, x () with
  | accepted f, accepted a => accepted (f a)
  | rejected ps, accepted _ => rejected ps
  | accepted _, rejected qs => rejected qs
  | rejected ps, rejected qs => rejected (ps ++ qs)

instance : Applicative Verdict where
  pure := accepted
  map := map
  seq := seq

def all : List (Verdict α) → Verdict (List α)
  | [] => accepted []
  | v :: vs => List.cons <$> v <*> all vs

def toExcept : Verdict α → Except (List Problem) α
  | accepted a => .ok a
  | rejected ps => .error ps

end Verdict
end Schema
end TextMate
