import TextMate.Yaml.Node
import TextMate.Yaml.Error

/-!
# Merging

A mapping may ask for the entries of other mappings.  They come in front of its
own, which may set their keys anew.  A mapping that was asked for stays merged,
wherever else it is a member, and so the entries it asked for itself have been
taken in once and for all.  One that is being merged already lends what it has
by then.
-/

namespace TextMate
namespace Yaml
namespace Nodes

/-- The first entry of a mapping that asks for others: its value, and the nodes without it. -/
def takeMerge? (nodes : Nodes) (n : Nat) : Option (Nat × Nodes) :=
  let entries := (nodes.node n).content.entries
  let asks (entry : Nat × Nat) : Bool := (nodes.node entry.1).tag == .merge
  (entries.find? asks).map fun entry =>
    (entry.2, nodes.setContent n (.mapping (entries.eraseP asks)))

/-- The nodes with some entries put in front of those of a mapping.  The sign for a default
value is a text from then on where it is a key of the mapping. -/
def prepend (nodes : Nodes) (n : Nat) (merged : List (Nat × Nat)) : Nodes :=
  let entries := merged ++ (nodes.node n).content.entries
  let nodes := if merged.isEmpty then nodes else nodes.setContent n (.mapping entries)
  entries.foldl
    (fun nodes entry =>
      if (nodes.node entry.1).tag == .default then nodes.setTag entry.1 .text else nodes)
    nodes

/-- The entries that a mapping asks for, in order, and the nodes without its asking.  `fuel` is
more than the number of askings. -/
def mergedEntries : Nat → Nodes → Nat → Except Fault (List (Nat × Nat) × Nodes)
  | 0, nodes, _ => .ok ([], nodes)
  | fuel + 1, nodes, n =>
      match nodes.takeMerge? n with
      | none => .ok ([], nodes)
      | some (value, nodes) => do
          let fail (problem : Problem) (m : Nat) : Except Fault (List (Nat × Nat) × Nodes) :=
            .error (.flaw
              ⟨some .mapping, some (nodes.node n).start, problem, (nodes.node m).start⟩)
          let lend (nodes : Nodes) (m : Nat) : Except Fault (List (Nat × Nat) × Nodes) := do
            let (merged, nodes) ← mergedEntries fuel nodes m
            let nodes := nodes.prepend m merged
            return ((nodes.node m).content.entries, nodes)
          let (piece, nodes) ←
            match (nodes.node value).content with
            | .mapping _ => lend nodes value
            | .sequence items =>
                items.foldlM
                  (fun (pieces, nodes) item => do
                    match (nodes.node item).content with
                    | .mapping _ =>
                        let (piece, nodes) ← lend nodes item
                        return (piece ++ pieces, nodes)
                    | content => fail (.expectedMergeableItem content.form) item)
                  (([], nodes) : List (Nat × Nat) × Nodes)
            | content => fail (.expectedMergeable content.form) value
          let (rest, nodes) ← mergedEntries fuel nodes n
          return (piece ++ rest, nodes)

def asks (nodes : Nodes) (n : Nat) : Bool :=
  (nodes.node n).content.entries.any fun entry => (nodes.node entry.1).tag == .merge

def merge (nodes : Nodes) (n : Nat) : Except Fault Nodes := do
  if nodes.asks n then
    let (merged, nodes) ← mergedEntries (nodes.entryCount + 1) nodes n
    return nodes.prepend n merged
  else return nodes.prepend n []

end Nodes
end Yaml
end TextMate
