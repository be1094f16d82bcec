import TextMate.Draft.Members
import TextMate.Draft.Walk

/-!
# Repositories of drafts

The names of a repository can be put in order when they are all texts or all
numbers.  A rule can be looked up under any key.
-/

namespace TextMate
namespace Draft

def repositoryNames (g : Value) : Except Fault (List Value) := do
  names (← read g .repository)

/-- The number that a key stands for as a fraction, whose denominator is zero for the infinite
ones. -/
def fraction? (key : Value) : Option (Int × Nat) :=
  match key.number? with
  | some (.inl n) => some (n, 1)
  | some (.inr (.finite negative mantissa exponent)) =>
      let (num, den) := Decimal.Binary64.fraction mantissa exponent
      some (if negative then -num else num, den)
  | some (.inr (.infinite negative)) => some (if negative then -1 else 1, 0)
  | _ => none

def isAtMost (a b : Int × Nat) : Bool :=
  if a.2 == 0 && b.2 == 0 then a.1 <= b.1 else a.1 * b.2 <= b.1 * a.2

def sortedNames (g : Value) : Except Fault (List Value) := do
  let names ← repositoryNames g
  let texts := names.filterMap fun
    | .text s => some s
    | _ => none
  let numbers := names.filterMap fun v => (fraction? v).map fun n => (n, v)
  if texts.length == names.length then
    return (texts.mergeSort fun a b => !(b < a)).map .text
  else if numbers.length == names.length then
    return (numbers.mergeSort fun a b => isAtMost a.1 b.1).map (·.2)
  else
    match names with
    | first :: second :: _ => throw (.unordered second.typeName first.typeName)
    | names => return names

def rule? (g key : Value) : Except Fault (Option Value) := do
  let repository ← read g .repository
  if !repository.isTruthy then return none
  match repository with
  | .dict es | .view es => return Value.lookup es key
  | v => throw (.noAttribute v.typeName "get")

end Draft
end TextMate
