import TextMate.Draft.Basic
import TextMate.Draft.Report

/-!
# Documents of drafts

A document shows the fields of an object in order, each under its key, and leaves
out those that may be left out and are empty.  A pattern that would show nothing
but empty fields is itself empty, and collections lose such members.  Required
fields that are unset show nothing as their value.
-/

namespace TextMate
namespace Draft

mutual

def isEmpty : Value → Bool
  | .null => true
  | .text s => s.isEmpty
  | .dict es | .view es => es.isEmpty
  | .list vs | .tuple vs => vs.isEmpty
  | .record kind fields => kind.isPattern && showsNothing kind fields
  | _ => false

def showsNothing (kind : Kind) : List (Field × Value) → Bool
  | [] => true
  | (field, v) :: fields =>
      (kind.dropsEmpty field && isEmpty v || v matches .null) && showsNothing kind fields

end

/-- What kind of emptiness is asked of a value. -/
inductive Shape where
  | text
  | mapping
  | sequence
  | pattern
  deriving DecidableEq, Repr

def shape? : Value → Option Shape
  | .text _ => some .text
  | .dict _ | .view _ => some .mapping
  | .list _ | .tuple _ => some .sequence
  | .record kind _ => if kind.isPattern then some .pattern else none
  | _ => none

/-- Puts the fields that a document shows in order; one that is always shown shows nothing as
its value when it is unset. -/
def arrange (kind : Kind) (fields : List (Field × Value)) : List (String × Value) :=
  kind.fields.filterMap fun field =>
    match fields.find? fun f => f.1 == field with
    | some f => some (kind.key field, f.2)
    | none => if kind.dropsEmpty field then none else some (kind.key field, .null)

/-- The fields of an object that a document shows, with their values as they are. -/
def shownFields (v : Value) : List (String × Value) :=
  match v with
  | .record kind fields =>
      arrange kind (fields.filter fun f => !(kind.dropsEmpty f.1 && isEmpty f.2))
  | _ => []

def isEmptyMember (v : Value) : Bool :=
  v.kind?.isSome && isEmpty v

mutual

/-- The document of a value: objects become mappings, and tuples lists. -/
def plain : Value → Value
  | .record kind fields => ofNamed (arrange kind (plainFields kind fields))
  | .dict es => .dict (plainEntries es)
  | .list vs | .tuple vs => .list (plainItems vs)
  | v => v

def plainFields (kind : Kind) : List (Field × Value) → List (Field × Value)
  | [] => []
  | (field, v) :: fields =>
      if kind.dropsEmpty field && isEmpty v then plainFields kind fields
      else (field, plain v) :: plainFields kind fields

def plainEntries : List (Value × Value) → List (Value × Value)
  | [] => []
  | (key, v) :: es =>
      if isEmptyMember v then plainEntries es else (key, plain v) :: plainEntries es

def plainItems : List Value → List Value
  | [] => []
  | v :: vs => if isEmptyMember v then plainItems vs else plain v :: plainItems vs

end

def prepare (g : Value) : Except Fault (Value × Report) := do
  let report ← report g
  match report.dangling? with
  | some references => throw (.dangling references)
  | none => return (← unmarkIncludes g, report)

def document (g : Value) : Except Fault Value := do
  return plain (← prepare g).1

end Draft
end TextMate
