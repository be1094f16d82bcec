import TextMate.Draft.Fault
import TextMate.Value.Same

/-!
# Members of any value

Where a list or a mapping is expected a draft may hold anything.  Going through a
value yields the members of a collection, the keys of a mapping, the characters
of a text, or the fields of an object with their words.  Other values cannot be
gone through.
-/

namespace TextMate
namespace Draft

def fieldPair (f : Field × Value) : Value :=
  .tuple [.text f.1.label, f.2]

def members : Value → Except Fault (List Value)
  | .list vs | .tuple vs | .set vs => .ok vs
  | .dict es | .view es => .ok (es.map (·.1))
  | .text s => .ok (s.toList.map fun c => .text (String.singleton c))
  | .bytes bs => .ok (bs.map fun b => .int b.toNat)
  | .record _ fields => .ok (fields.map fieldPair)
  | v => .error (.notIterable v.typeName)

/-- What going through a value yields; a value whose test fails counts as empty. -/
def membersOrNone (v : Value) : Except Fault (List Value) :=
  if v.isTruthy then members v else .ok []

/-- The number of members of a value; a value whose test fails counts as empty. -/
def countOrZero (v : Value) : Except Fault Nat :=
  if !v.isTruthy then .ok 0
  else
    match v with
    | .list vs | .tuple vs | .set vs => .ok vs.length
    | .dict es | .view es => .ok es.length
    | .text s => .ok s.length
    | .bytes bs => .ok bs.length
    | v => .error (.noLength v.typeName)

mutual

def unhashable? : Value → Option String
  | .list _ => some "list"
  | .set _ => some "set"
  | .dict _ => some "dict"
  | .view es => some (Value.view es).typeName
  | .tuple vs => unhashableIn? vs
  | .record kind fields =>
      if kind == .summary then some kind.title else unhashableField? fields
  | _ => none

def unhashableIn? : List Value → Option String
  | [] => none
  | v :: vs => (unhashable? v).or (unhashableIn? vs)

def unhashableField? : List (Field × Value) → Option String
  | [] => none
  | (_, v) :: fields => (unhashable? v).or (unhashableField? fields)

end

def names (v : Value) : Except Fault (List Value) := do
  let vs ← membersOrNone v
  match unhashableIn? vs with
  | some typeName => throw (.unhashable typeName)
  | none => return Value.distinct vs

end Draft
end TextMate
