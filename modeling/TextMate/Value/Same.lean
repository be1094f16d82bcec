import TextMate.Value.Basic

/-!
# When values are the same

Numbers are compared by value, whatever their type, and truth values count as
zero and one.  Lists, tuples and sets are different types; the order of the
entries of a mapping does not matter, nor whether it is only a view.  This is the
equality by which a key is looked up and by which a changed grammar differs from
the one it came from.  While a document is read its keys are told apart by another
one, under which undefined numbers may differ.
-/

namespace TextMate
namespace Value

open Decimal

def number? : Value → Option (Int ⊕ Binary64)
  | bool b => some (.inl (if b then 1 else 0))
  | int n => some (.inl n)
  | float x => some (.inr x)
  | _ => none

def sameNumber : Int ⊕ Binary64 → Int ⊕ Binary64 → Bool
  | .inl a, .inl b => a == b
  | .inl a, .inr x => x.toInt? == some a
  | .inr x, .inl b => x.toInt? == some b
  | .inr x, .inr y => x.same y || x == y

mutual

def same : Value → Value → Bool
  | null, w => match w with | null => true | _ => false
  | bool a, w =>
      match w.number? with
      | some n => sameNumber (.inl (if a then 1 else 0)) n
      | none => false
  | int a, w =>
      match w.number? with
      | some n => sameNumber (.inl a) n
      | none => false
  | float x, w =>
      match w.number? with
      | some n => sameNumber (.inr x) n
      | none => false
  | text s, w => match w with | text t => s == t | _ => false
  | broken s, w => match w with | broken t => s == t | _ => false
  | bytes s, w => match w with | bytes t => s == t | _ => false
  | date d, w => match w with | date e => d == e | _ => false
  | moment m, w => match w with | moment n => m.same n | _ => false
  | list vs, w => match w with | list ws => sameItems vs ws | _ => false
  | tuple vs, w => match w with | tuple ws => sameItems vs ws | _ => false
  | set vs, w =>
      match w with
      | set ws => vs.length == ws.length && allAmong vs ws
      | _ => false
  | dict es, w =>
      match w with
      | dict fs | view fs => es.length == fs.length && sameEntries es fs
      | _ => false
  | view es, w =>
      match w with
      | dict fs | view fs => es.length == fs.length && sameEntries es fs
      | _ => false
  | record k es, w =>
      match w with
      | record l fs => k == l && es.length == fs.length && sameFields es fs
      | _ => false
  | anchored a v, w =>
      match w with
      | anchored b u => a == b && same v u
      | _ => false
  | again a, w => match w with | again b => a == b | _ => false

def sameItems : List Value → List Value → Bool
  | [], ws => ws.isEmpty
  | v :: vs, w :: ws => same v w && sameItems vs ws
  | _ :: _, [] => false

def allAmong : List Value → List Value → Bool
  | [], _ => true
  | v :: vs, ws => ws.any (same v) && allAmong vs ws

def sameEntries : List (Value × Value) → List (Value × Value) → Bool
  | [], _ => true
  | (k, v) :: es, fs =>
      fs.any (fun f => same k f.1 && same v f.2) && sameEntries es fs

def sameFields : List (Field × Value) → List (Field × Value) → Bool
  | [], _ => true
  | (f, v) :: es, fs =>
      fs.any (fun g => f == g.1 && same v g.2) && sameFields es fs

end

def distinct (vs : List Value) : List Value :=
  vs.foldl (fun met v => if met.any v.same then met else met ++ [v]) []

/-- Sets the value under a key: an equal key stays where it is and keeps its spelling, a new
one goes to the end. -/
def setEntry (entries : List (Value × Value)) (key value : Value) : List (Value × Value) :=
  if entries.any fun e => key.same e.1 then
    entries.map fun e => if key.same e.1 then (e.1, value) else e
  else entries ++ [(key, value)]

def dictOf (entries : List (Value × Value)) : Value :=
  dict (entries.foldl (fun acc e => setEntry acc e.1 e.2) [])

def lookup (entries : List (Value × Value)) (key : Value) : Option Value :=
  (entries.find? fun e => key.same e.1).map (·.2)

end Value
end TextMate
