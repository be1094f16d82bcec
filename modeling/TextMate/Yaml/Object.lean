import TextMate.Yaml.Node.Merge
import TextMate.Yaml.Node.Scalar
import TextMate.Value.Same

/-!
# Objects

Every node stands for one object, wherever it is a member.  A scalar is a value
at once.  A collection is empty at first and gets its members later: those found
on one level of the document before those found in them.  So of several faults
the one on the outermost level is reported, and on one level the first.
-/

namespace TextMate
namespace Yaml

/-- What a node stands for.  Members of collections are given by their numbers, but keys are
values.  The undefined numbers are told apart by their nodes, except those that the word for it
denotes. -/
inductive Object where
  | scalar (value : Value) (identity : Option Nat)
  | list (items : List Nat)
  | dict (entries : List (Value × Nat))
  | set (keys : List Value)
  | pairs (entries : List (Nat × Nat))
  deriving Inhabited, Repr

def Object.empty? : Tag → Option Object
  | .sequence => some (.list [])
  | .mapping => some (.dict [])
  | .set => some (.set [])
  | .orderedMap | .pairs => some (.pairs [])
  | _ => none

/-- The objects of a document, as far as they are known, by the numbers of their nodes. -/
abbrev Objects := Array (Option Object)

/-- What is known while objects are made: the nodes, the objects, and the collections that are
still empty, the last one first. -/
structure ObjectMaker where
  nodes : Nodes
  objects : Objects
  pending : List Nat

abbrev Making := StateT ObjectMaker (Except Fault)

namespace ObjectMaker

def nodeOf (n : Nat) : Making Node := do
  return (← get).nodes.node n

def put (n : Nat) (object : Object) : Making Unit :=
  modify fun m => { m with objects := m.objects.setIfInBounds n (some object) }

def scalarOf (nodes : Nodes) (n : Nat) : Except Fault Object := do
  let (value, codes) ← nodes.scalarValue n
  return .scalar value (if isUndefinedWord codes then none else some n)

/-- The object of a node; a collection is still empty. -/
def object (n : Nat) : Making Object := do
  let m ← get
  match m.objects.getD n none with
  | some object => return object
  | none =>
      match Object.empty? (m.nodes.node n).tag with
      | some object => do
          put n object
          modify fun m => { m with pending := n :: m.pending }
          return object
      | none => do
          let object ← scalarOf m.nodes n
          put n object
          return object

/-- A key: its value and its identity. -/
abbrev Key := Value × Option Nat

def sameKey (a b : Key) : Bool :=
  match a.1, b.1 with
  | .float .nan, .float .nan => a.2 == b.2
  | v, w => v.same w

/-- Sets the member under a key: an equal key stays where it is, a new one goes to the end. -/
def setMember (members : List (Key × Nat)) (key : Key) (n : Nat) : List (Key × Nat) :=
  if members.any fun e => sameKey key e.1 then
    members.map fun e => if sameKey key e.1 then (e.1, n) else e
  else members ++ [(key, n)]

def keyOf (start : Mark) (n : Nat) : Making Key := do
  match ← object n with
  | .scalar value identity => return (value, identity)
  | _ => throw (.flaw ⟨some .mapping, some start, .unhashableKey, (← nodeOf n).start⟩)

def entriesOf (n : Nat) : Making (List (Value × Nat)) := do
  let node ← nodeOf n
  match node.content with
  | .mapping _ => do
      let nodes ← (← get).nodes.merge n
      modify fun m => { m with nodes := nodes }
      let members ← (nodes.node n).content.entries.foldlM
        (fun members entry => do
          let key ← keyOf node.start entry.1
          let _ ← object entry.2
          return setMember members key entry.2)
        ([] : List (Key × Nat))
      return members.map fun e => (e.1.1, e.2)
  | content => failAt node.start (.expectedMapping content.form)

/-- The pairs of an ordered map or of a list of pairs: items that are mappings of one entry. -/
def pairsOf (context : Context) (n : Nat) : Making (List (Nat × Nat)) := do
  let node ← nodeOf n
  let fail (problem : Problem) (mark : Mark) : Making (List (Nat × Nat)) :=
    throw (.flaw ⟨some context, some node.start, problem, mark⟩)
  match node.content with
  | .sequence items => do
      let pairs ← items.mapM fun item => do
        let itemNode ← nodeOf item
        match itemNode.content with
        | .mapping [entry] => do
            let _ ← object entry.1
            let _ ← object entry.2
            return [entry]
        | .mapping entries => fail (.expectedSingleItem entries.length) itemNode.start
        | content => fail (.expectedSingleton content.form) itemNode.start
      return pairs.flatten
  | content => fail (.expectedEntries content.form) node.start

def fill (n : Nat) : Making Unit := do
  let node ← nodeOf n
  match node.tag with
  | .sequence =>
      match node.content with
      | .sequence items => do
          for item in items do
            let _ ← object item
          put n (.list items)
      | content => failAt node.start (.expectedSequence content.form)
  | .mapping => do put n (.dict (← entriesOf n))
  | .set => do put n (.set ((← entriesOf n).map (·.1)))
  | .orderedMap => do put n (.pairs (← pairsOf .orderedMap n))
  | .pairs => do put n (.pairs (← pairsOf .pairs n))
  | _ => return ()

/-- Gives all collections their members, level by level.  `fuel` is more than the number of
levels. -/
def fillAll : Nat → Making Unit
  | 0 => return ()
  | fuel + 1 => do
      let m ← get
      if m.pending.isEmpty then return ()
      set { m with pending := [] }
      for n in m.pending.reverse do
        fill n
      fillAll fuel

end ObjectMaker

def Document.objects (d : Document) : Except Fault Objects := do
  let make : Making Unit := do
    let _ ← ObjectMaker.object d.root
    ObjectMaker.fillAll (d.nodes.size + 1)
  let (_, m) ← make.run ⟨d.nodes, Array.replicate d.nodes.size none, []⟩
  return m.objects

end Yaml
end TextMate
