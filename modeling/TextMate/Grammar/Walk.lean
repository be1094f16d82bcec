import TextMate.Grammar.Include

/-!
# Walking through a grammar

Patterns are met in a fixed order: the top-level ones first, then the entries of
the repository, each before its inner patterns.  The location of a pattern names
the way to it by list places and repository names between slashes.

A transformation goes the other way: the inner patterns of a block are
transformed before the block itself.
-/

namespace TextMate

namespace Pattern

mutual

def walk (location : String) : Pattern → List (String × Pattern)
  | block rule (some ps) =>
      (location, block rule (some ps)) :: walkFrom (location ++ "/patterns/") 0 ps
  | p => [(location, p)]

def walkFrom (base : String) : Nat → List Pattern → List (String × Pattern)
  | _, [] => []
  | i, p :: ps => walk (base ++ toString i) p ++ walkFrom base (i + 1) ps

end

mutual

def mapM {m : Type → Type} [Monad m] (f : Pattern → m Pattern) : Pattern → m Pattern
  | block rule (some ps) => do
      let ps ← mapListM f ps
      f (block rule (some ps))
  | p => f p

def mapListM {m : Type → Type} [Monad m] (f : Pattern → m Pattern) :
    List Pattern → m (List Pattern)
  | [] => pure []
  | p :: ps => do
      let p ← mapM f p
      let ps ← mapListM f ps
      return p :: ps

end

def unmarkTarget : Pattern → Pattern
  | reference target => reference (Include.unmark target)
  | p => p

end Pattern

namespace Grammar

def walk (g : Grammar) : List (String × Pattern) :=
  Pattern.walkFrom "patterns/" 0 g.topLevel
    ++ g.entries.flatMap fun e => e.2.walk ("repository/" ++ e.1)

def nodes (g : Grammar) : List Pattern :=
  g.walk.map (·.2)

def targets (g : Grammar) : List String :=
  g.nodes.filterMap fun
    | .reference target => some target
    | _ => none

def mapEntriesM {m : Type → Type} [Monad m] (f : Pattern → m Pattern) :
    List (String × Pattern) → m (List (String × Pattern))
  | [] => pure []
  | (name, p) :: es => do
      let p ← p.mapM f
      let es ← mapEntriesM f es
      return (name, p) :: es

/-- Transforms all patterns, inner ones first; absent lists stay absent. -/
def mapM {m : Type → Type} [Monad m] (f : Pattern → m Pattern) (g : Grammar) : m Grammar := do
  let patterns ←
    match g.patterns with
    | none => pure none
    | some ps => some <$> Pattern.mapListM f ps
  let repository ←
    match g.repository with
    | none => pure none
    | some es => some <$> mapEntriesM f es
  return { g with patterns := patterns, repository := repository }

def map (f : Pattern → Pattern) (g : Grammar) : Grammar :=
  Id.run (g.mapM fun p => pure (f p))

def transformed (g : Grammar) : List Pattern :=
  ((g.mapM (m := StateM (List Pattern)) fun p => do
    modify (p :: ·)
    return p).run []).2.reverse

def unmarkIncludes (g : Grammar) : Grammar :=
  g.map Pattern.unmarkTarget

end Grammar
end TextMate
