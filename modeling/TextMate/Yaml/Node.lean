import TextMate.Yaml.Mark
import TextMate.Yaml.Tag
import TextMate.Text.Codes

/-!
# Nodes

A document is a graph of nodes: scalars, sequences and mappings, each with a tag
and the place where it begins.  Nodes are known by number.  An alias is the
number of the node it names, so a node may be a member of several collections,
and a collection may be a member of itself.
-/

namespace TextMate
namespace Yaml

/-- What a node consists of; members are given by their numbers. -/
inductive Content where
  | scalar (codes : Text.Codes)
  | sequence (items : List Nat)
  | mapping (entries : List (Nat × Nat))
  deriving DecidableEq, Repr, Inhabited

def Content.form : Content → String
  | scalar _ => "scalar"
  | sequence _ => "sequence"
  | mapping _ => "mapping"

/-- The entries of a mapping; other contents have none. -/
def Content.entries : Content → List (Nat × Nat)
  | mapping entries => entries
  | _ => []

structure Node where
  tag : Tag
  content : Content
  start : Mark
  deriving DecidableEq, Repr, Inhabited

abbrev Nodes := Array Node

namespace Nodes

def node (nodes : Nodes) (n : Nat) : Node :=
  nodes.getD n default

def setContent (nodes : Nodes) (n : Nat) (content : Content) : Nodes :=
  nodes.modify n fun node => { node with content := content }

def setTag (nodes : Nodes) (n : Nat) (tag : Tag) : Nodes :=
  nodes.modify n fun node => { node with tag := tag }

def entryCount (nodes : Nodes) : Nat :=
  nodes.foldl (fun count node => count + node.content.entries.length) 0

end Nodes

/-- A document: its nodes and the number of the one that holds all others. -/
structure Document where
  nodes : Nodes
  root : Nat
  deriving Repr

end Yaml
end TextMate
