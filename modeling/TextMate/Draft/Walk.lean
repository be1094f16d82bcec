import TextMate.Draft.Members
import TextMate.Value.Same

/-!
# Walking through a draft

The order and the locations are those of checked grammars.  A trail holds the
patterns met so far and the fault that ended the walk, if any; what happens on the
way to a fault still counts.
-/

namespace TextMate
namespace Draft

/-- Patterns with their locations, and the fault behind them. -/
structure Trail where
  visited : List (String × Value)
  fault : Option Fault

namespace Trail

def empty : Trail := ⟨[], none⟩

def stop (fault : Fault) : Trail := ⟨[], some fault⟩

def andThen (t u : Trail) : Trail :=
  match t.fault with
  | some _ => t
  | none => ⟨t.visited ++ u.visited, u.fault⟩

def cons (location : String) (v : Value) (t : Trail) : Trail :=
  ⟨(location, v) :: t.visited, t.fault⟩

end Trail

def shapeFault (location : String) (v : Value) : Fault :=
  .shape ⟨v, some location⟩

def member (base : String) (v : Value) : String :=
  base ++ v.plainForm

mutual

def walk (location : String) : Value → Trail
  | .record kind fields =>
      if !kind.isPattern then .stop (shapeFault location (.record kind fields))
      else
        (if kind == .block then walkField location fields else .empty).cons location
          (.record kind fields)
  | v => .stop (shapeFault location v)

def walkField (location : String) : List (Field × Value) → Trail
  | [] => .stop (.noAttribute Kind.block.title Field.patterns.label)
  | (field, v) :: fields =>
      if field == .patterns then walkSlot (location ++ "/patterns/") v
      else walkField location fields

def walkSlot (base : String) : Value → Trail
  | .list vs | .tuple vs | .set vs => walkItems base 0 vs
  | .dict es | .view es =>
      match es with
      | [] => .empty
      | (key, _) :: _ => .stop (shapeFault (base ++ "0") key)
  | .record _ fields =>
      match fields with
      | [] => .empty
      | f :: _ => .stop (shapeFault (base ++ "0") (fieldPair f))
  | .text s =>
      match s.toList with
      | [] => .empty
      | c :: _ => .stop (shapeFault (base ++ "0") (.text (String.singleton c)))
  | .bytes bs =>
      match bs with
      | [] => .empty
      | b :: _ => .stop (shapeFault (base ++ "0") (.int b.toNat))
  | v => if v.isTruthy then .stop (.notIterable v.typeName) else .empty

def walkItems (base : String) : Nat → List Value → Trail
  | _, [] => .empty
  | i, v :: vs => (walk (base ++ toString i) v).andThen (walkItems base (i + 1) vs)

end

def walkEntries : List (Value × Value) → Trail
  | [] => .empty
  | (key, v) :: es => (walk (member "repository/" key) v).andThen (walkEntries es)

/-- A field of an object; reading an unset one is a fault. -/
def read (v : Value) (field : Field) : Except Fault Value :=
  match v.get? field with
  | some w => .ok w
  | none => .error (.noAttribute v.typeName field.label)

def entries (v : Value) : Except Fault (List (Value × Value)) :=
  if !v.isTruthy then .ok []
  else
    match v with
    | .dict es | .view es => .ok es
    | v => .error (.noAttribute v.typeName "items")

def trailOf (t : Except Fault Trail) : Trail :=
  match t with
  | .ok t => t
  | .error fault => .stop fault

def walkGrammar (g : Value) : Trail :=
  let topLevel := trailOf do return walkSlot "patterns/" (← read g .patterns)
  let named := trailOf do return walkEntries (← entries (← read g .repository))
  topLevel.andThen named

/-! ## Transformations -/

abbrev Work := StateT (List Value) (Except Fault)

def stop {α : Type} (fault : Fault) : Work α :=
  fun _ => .error fault

def apply (f : Value → Except Fault Value) (v : Value) : Work Value := do
  modify (v :: ·)
  match f v with
  | .ok w => return w
  | .error fault => stop fault

mutual

def transform (f : Value → Except Fault Value) (location : String) : Value → Work Value
  | .record kind fields => do
      if !kind.isPattern then
        stop (shapeFault location (.record kind fields))
      else if kind == .block then
        let fields ← transformFields f location fields
        apply f (.record kind fields)
      else apply f (.record kind fields)
  | v => stop (shapeFault location v)

def transformFields (f : Value → Except Fault Value) (location : String) :
    List (Field × Value) → Work (List (Field × Value))
  | [] => pure []
  | (field, v) :: fields => do
      let w ←
        if field == .patterns then transformSlot f (location ++ "/patterns/") v else pure v
      let fields ← transformFields f location fields
      return (field, w) :: fields

/-- Transforms the members of whatever stands for a list of patterns into a list; nothing
stays nothing. -/
def transformSlot (f : Value → Except Fault Value) (base : String) : Value → Work Value
  | .null => pure .null
  | .list vs | .tuple vs | .set vs => do
      return .list (← transformItems f base 0 vs)
  | .dict es | .view es =>
      match es with
      | [] => pure (.list [])
      | (key, _) :: _ => stop (shapeFault (base ++ "0") key)
  | .record _ fields =>
      match fields with
      | [] => pure (.list [])
      | f :: _ => stop (shapeFault (base ++ "0") (fieldPair f))
  | .text s =>
      match s.toList with
      | [] => pure (.list [])
      | c :: _ => stop (shapeFault (base ++ "0") (.text (String.singleton c)))
  | .bytes bs =>
      match bs with
      | [] => pure (.list [])
      | b :: _ => stop (shapeFault (base ++ "0") (.int b.toNat))
  | v => stop (.notIterable v.typeName)

def transformItems (f : Value → Except Fault Value) (base : String) :
    Nat → List Value → Work (List Value)
  | _, [] => pure []
  | i, v :: vs => do
      let w ← transform f (base ++ toString i) v
      let ws ← transformItems f base (i + 1) vs
      return w :: ws

end

def transformEntries (f : Value → Except Fault Value) :
    List (Value × Value) → Work (List (Value × Value))
  | [] => pure []
  | (key, v) :: es => do
      let w ← transform f (member "repository/" key) v
      let es ← transformEntries f es
      return (key, w) :: es

def transformGrammar (f : Value → Except Fault Value) (g : Value) : Work Value := do
  let patterns ← liftM (read g .patterns)
  let patterns ← transformSlot f "patterns/" patterns
  let repository ← liftM (read g .repository)
  let repository ←
    match repository with
    | .null => pure .null
    | .dict es | .view es => Value.dict <$> transformEntries f es
    | v => stop (.noAttribute v.typeName "items")
  return (g.put .patterns patterns).put .repository repository

def mapGrammar (f : Value → Except Fault Value) (g : Value) : Except Fault Value :=
  ((transformGrammar f g).run []).map (·.1)

/-- The patterns of a grammar in the order in which a transformation meets them. -/
def transformed (g : Value) : Except Fault (List Value) :=
  ((transformGrammar .ok g).run []).map fun result => result.2.reverse

def unmarkTarget (v : Value) : Except Fault Value :=
  match v with
  | .record .reference _ => do
      match ← read v .target with
      | .text target => return v.put .target (.text (Include.unmark target))
      | .bytes _ => throw .bytesMark
      | w => throw (.noAttribute w.typeName "startswith")
  | v => .ok v

def unmarkIncludes (g : Value) : Except Fault Value :=
  mapGrammar unmarkTarget g

end Draft
end TextMate
