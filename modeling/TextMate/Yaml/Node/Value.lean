import TextMate.Yaml.Node.OfTokens
import TextMate.Yaml.Object

/-!
# Values of documents

The value of a document is the object of its root with the objects of all members
put in their places.  Where a collection would have to be put into itself, a
reference to its number stands instead, and every collection with such a
reference inside shows its number.
-/

namespace TextMate
namespace Yaml

/-- An object with its members in their places: the value, the numbers that it refers to without
being their collection, and whether there is any reference inside. -/
structure Unfolding where
  value : Value
  free : List Nat
  recurs : Bool

namespace Unfolding

def pairUp : List Value → List Value
  | key :: value :: rest => .tuple [key, value] :: pairUp rest
  | _ => []

def collect (n : Nat) (members : List Unfolding) (build : List Value → Value) : Unfolding :=
  let value := build (members.map (·.value))
  let recurs := members.any (·.recurs)
  ⟨if recurs then .anchored n value else value,
    (members.flatMap (·.free)).eraseDups.filter (· != n), recurs⟩

def parts : Object → List Nat × (List Value → Value)
  | .scalar value _ => ([], fun _ => value)
  | .list items => (items, .list)
  | .dict entries => (entries.map (·.2), fun vs => .dict ((entries.map (·.1)).zip vs))
  | .set keys => ([], fun _ => .set keys)
  | .pairs entries =>
      (entries.flatMap fun e => [e.1, e.2], fun vs => .list (pairUp vs))

/-- The unfolding of the object with a number, inside the collections with the given numbers.
Those that do not depend on the place are remembered.  `fuel` is more than the number of
objects. -/
def ofObject (objects : Objects) :
    Nat → List Nat → Nat → StateM (Array (Option Unfolding)) Unfolding
  | 0, _, n => return ⟨.again n, [n], true⟩
  | fuel + 1, around, n => do
      if around.contains n then return ⟨.again n, [n], true⟩
      match (← get).getD n none with
      | some unfolding => return unfolding
      | none => do
          let (members, build) := parts ((objects.getD n none).getD default)
          let unfolding :=
            collect n (← members.mapM (ofObject objects fuel (n :: around))) build
          if unfolding.free.isEmpty then
            modify fun known => known.setIfInBounds n (some unfolding)
          return unfolding

end Unfolding

def Document.value (d : Document) : Except Fault Value := do
  let objects ← d.objects
  let known := Array.replicate objects.size none
  return (Unfolding.ofObject objects (objects.size + 1) [] d.root |>.run known).1.value

/-- The value that a text describes; nothing where it holds no document. -/
def read (s : String) : Except Fault Value := do
  match ← Document.ofText? s with
  | none => return .null
  | some document => document.value

end Yaml
end TextMate
