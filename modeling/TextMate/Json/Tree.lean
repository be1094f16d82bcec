import TextMate.Decimal.Binary64

/-!
# Document trees

A document tree has scalars, sequences and objects, and the members of an
object are named by texts and stay in order.  A name may occur more than once;
nothing here looks names up.
-/

namespace TextMate

inductive Tree where
  | null
  | bool (b : Bool)
  | int (n : Int)
  | float (x : Decimal.Binary64)
  | text (s : String)
  | list (items : List Tree)
  | object (members : List (String × Tree))
  deriving Inhabited, Repr

namespace Tree

mutual

def beq : Tree → Tree → Bool
  | null, u => match u with | null => true | _ => false
  | bool a, u => match u with | bool b => a == b | _ => false
  | int a, u => match u with | int b => a == b | _ => false
  | float x, u => match u with | float y => x == y | _ => false
  | text s, u => match u with | text t => s == t | _ => false
  | list xs, u => match u with | list ys => beqItems xs ys | _ => false
  | object xs, u => match u with | object ys => beqMembers xs ys | _ => false

def beqItems : List Tree → List Tree → Bool
  | [], ys => ys.isEmpty
  | x :: xs, y :: ys => beq x y && beqItems xs ys
  | _ :: _, [] => false

def beqMembers : List (String × Tree) → List (String × Tree) → Bool
  | [], ys => ys.isEmpty
  | (k, x) :: xs, (l, y) :: ys => k == l && beq x y && beqMembers xs ys
  | _ :: _, [] => false

end

instance : BEq Tree := ⟨beq⟩

def member? (name : String) : Tree → Option Tree
  | object members => (members.find? fun m => m.1 == name).map (·.2)
  | _ => none

end Tree
end TextMate
