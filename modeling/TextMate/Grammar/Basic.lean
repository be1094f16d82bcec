/-!
# Grammars

A grammar describes the coloring of one language.  Its rules are patterns of
three kinds: a *matching* pattern colors what one regular expression matches, a
*block* colors what stands between two expressions and has patterns of its own,
and a *reference* includes rules from elsewhere.  The repository holds named
patterns for references from within the grammar.

Fields that need not be present are optional; absent and empty are different
until a document is made.
-/

namespace TextMate

/-- The scope given to one group of a match. -/
structure Capture where
  name : String
  deriving DecidableEq, Repr, Inhabited

abbrev Captures (κ : Type) := Option (List (String × κ))

/-- What a matching pattern consists of; `κ` is what a capture is. -/
structure MatchRule (κ : Type) where
  name : Option String
  regex : String
  captures : Captures κ
  deriving DecidableEq, Repr, Inhabited

/-- What a block consists of, apart from its inner patterns. -/
structure BlockRule (κ : Type) where
  name : Option String
  opening : String
  openingCaptures : Captures κ
  closing : String
  closingCaptures : Captures κ
  captures : Captures κ
  contentName : Option String
  deriving DecidableEq, Repr, Inhabited

inductive Pattern where
  | matching (rule : MatchRule Capture)
  | block (rule : BlockRule Capture) (patterns : Option (List Pattern))
  | reference (target : String)
  deriving Inhabited, Repr

/-- The fields of a grammar apart from its rules. -/
structure Header where
  schemaUri : Option String
  name : Option String
  scopeName : String
  fileTypes : Option (List String)
  foldingStartMarker : Option String
  foldingStopMarker : Option String
  firstLineMatch : String
  injectionSelector : String
  uuid : String
  deriving DecidableEq, Repr, Inhabited

structure Grammar where
  header : Header
  patterns : Option (List Pattern)
  repository : Option (List (String × Pattern))
  deriving Inhabited, Repr

namespace Pattern

mutual

def beq : Pattern → Pattern → Bool
  | matching r, q => match q with | matching s => r == s | _ => false
  | reference t, q => match q with | reference u => t == u | _ => false
  | block r ps, q =>
      match q with
      | block s qs => r == s && beqOption ps qs
      | _ => false

def beqOption : Option (List Pattern) → Option (List Pattern) → Bool
  | none, qs => qs.isNone
  | some ps, qs => match qs with | some qs => beqList ps qs | none => false

def beqList : List Pattern → List Pattern → Bool
  | [], qs => qs.isEmpty
  | p :: ps, q :: qs => beq p q && beqList ps qs
  | _ :: _, [] => false

end

instance : BEq Pattern := ⟨beq⟩

def inner : Pattern → List Pattern
  | block _ (some ps) => ps
  | _ => []

end Pattern

namespace Grammar

def topLevel (g : Grammar) : List Pattern :=
  g.patterns.getD []

def entries (g : Grammar) : List (String × Pattern) :=
  g.repository.getD []

def names (g : Grammar) : List String :=
  g.entries.map (·.1)

def sortedNames (g : Grammar) : List String :=
  g.names.mergeSort fun a b => !(b < a)

def rule? (g : Grammar) (name : String) : Option Pattern :=
  (g.entries.find? fun e => e.1 == name).map (·.2)

/-- Whether two grammars are equal.  The order of the repository does not matter. -/
def same (g h : Grammar) : Bool :=
  g.header == h.header && g.patterns == h.patterns
    && g.repository.isSome == h.repository.isSome
    && g.entries.length == h.entries.length
    && g.entries.all fun e => h.rule? e.1 == some e.2

end Grammar
end TextMate
