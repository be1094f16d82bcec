import TextMate.Schema.Check

/-!
# The grammar of grammar documents

Which JSON values are documents of grammars, said without any check: each object
has its fields under their document keys or under the words used in calls, every
required one, none twice and nothing else, and each field holds a value of its
own form.

## JSON values
-/

namespace TextMate

namespace Value

/-- Texts, also those that hold halves of pairs. -/
def IsText : Value → Prop
  | .text _ | .broken _ => True
  | _ => False

@[simp] theorem isText_text (s : String) : (text s).IsText := trivial

/-- Values that JSON can express.  The members of an object have different names. -/
inductive IsJson : Value → Prop where
  | null : IsJson .null
  | bool (b : Bool) : IsJson (.bool b)
  | int (n : Int) : IsJson (.int n)
  | float (x : Decimal.Binary64) : IsJson (.float x)
  | text (s : String) : IsJson (.text s)
  | broken (codes : Text.Codes) : IsJson (.broken codes)
  | list {items : List Value} : (∀ v ∈ items, IsJson v) -> IsJson (.list items)
  | dict {es : List (Value × Value)} :
      (∀ e ∈ es, e.1.IsText) -> (es.map (·.1)).Nodup -> (∀ e ∈ es, IsJson e.2) ->
        IsJson (.dict es)

end Value

namespace Schema

/-!
## Objects
-/

def HasKey (es : List (Value × Value)) (name : String) : Prop :=
  ∃ v, (Value.text name, v) ∈ es

def Holds (kind : Kind) (es : List (Value × Value)) (f : Field) (v : Value) : Prop :=
  (Value.text (kind.key f), v) ∈ es ∨ (Value.text f.label, v) ∈ es

/-- Entries of an object of a kind with the required fields and with values that are allowed. -/
structure IsObject (kind : Kind) (required : List Field) (allowed : Field → Value → Prop)
    (es : List (Value × Value)) : Prop where
  /-- All keys spell fields. -/
  known : ∀ e ∈ es, ∃ f ∈ kind.fields, e.1 = .text (kind.key f) ∨ e.1 = .text f.label
  /-- No field is there in both spellings. -/
  once : ∀ f ∈ kind.fields, HasKey es (kind.key f) → HasKey es f.label → kind.key f = f.label
  present : ∀ f ∈ required, ∃ v, Holds kind es f v
  fits : ∀ f ∈ kind.fields, ∀ v, Holds kind es f v → allowed f v

def OrNull (P : Value → Prop) (v : Value) : Prop :=
  v = .null ∨ P v

def IsListOf (P : Value → Prop) (v : Value) : Prop :=
  ∃ items, v = .list items ∧ ∀ item ∈ items, P item

def IsMappingTo (P : Value → Prop) (v : Value) : Prop :=
  ∃ es, v = .dict es ∧ ∀ e ∈ es, P e.2

/-!
## Patterns
-/

def IsCapture (v : Value) : Prop :=
  ∃ es, v = .dict es ∧ IsObject .capture [.name] (fun _ => Value.IsText) es

def matchingField : Field → Value → Prop
  | .name => OrNull Value.IsText
  | .regex => Value.IsText
  | .captures => OrNull (IsMappingTo IsCapture)
  | _ => fun _ => False

def blockField (inner : Value → Prop) : Field → Value → Prop
  | .name | .contentName => OrNull Value.IsText
  | .opening | .closing => Value.IsText
  | .openingCaptures | .closingCaptures | .captures => OrNull (IsMappingTo IsCapture)
  | .patterns => OrNull (IsListOf inner)
  | _ => fun _ => False

/-- Values that describe patterns.  The keys of an object tell which pattern it has to be:
`include` goes before `begin` and `end`. -/
inductive IsPattern : Value → Prop where
  | reference {es : List (Value × Value)} :
      HasKey es "include" -> IsObject .reference [.target] (fun _ => Value.IsText) es ->
        IsPattern (.dict es)
  | block {es : List (Value × Value)} :
      ¬ HasKey es "include" -> HasKey es "begin" ∨ HasKey es "end" ->
        IsObject .block [.opening, .closing] (blockField fun _ => True) es ->
          (∀ items, (Value.text "patterns", Value.list items) ∈ es →
            ∀ item ∈ items, IsPattern item) ->
            IsPattern (.dict es)
  | matching {es : List (Value × Value)} :
      ¬ HasKey es "include" -> ¬ (HasKey es "begin" ∨ HasKey es "end") ->
        IsObject .matching [] matchingField es -> IsPattern (.dict es)

/-!
## Grammars
-/

def grammarField (pattern : Value → Prop) : Field → Value → Prop
  | .schemaUri | .name | .foldingStartMarker | .foldingStopMarker => OrNull Value.IsText
  | .scopeName | .uuid | .firstLineMatch | .injectionSelector => Value.IsText
  | .fileTypes => OrNull (IsListOf Value.IsText)
  | .patterns => OrNull (IsListOf pattern)
  | .repository => OrNull (IsMappingTo pattern)
  | _ => fun _ => False

/-- Values that describe grammars. -/
def IsGrammarDocument (v : Value) : Prop :=
  ∃ es, v = .dict es ∧ IsObject .grammar [.scopeName, .uuid] (grammarField IsPattern) es

/-!
## Nesting

Blocks may stand inside each other without end, but a check looks only so deep.
-/

def isNamed (name : String) : Value → Bool
  | .text s => s == name
  | _ => false

def opensBlock (es : List (Value × Value)) : Bool :=
  es.any fun e => isNamed "begin" e.1 || isNamed "end" e.1

mutual

/-- How many blocks stand inside each other in a value, itself included. -/
def blocks : Value → Nat
  | .dict es => if opensBlock es then innerBlocks es + 1 else 0
  | _ => 0

def innerBlocks : List (Value × Value) → Nat
  | [] => 0
  | (key, .list items) :: es =>
      max (if isNamed "patterns" key then listBlocks items else 0) (innerBlocks es)
  | _ :: es => innerBlocks es

def listBlocks : List Value → Nat
  | [] => 0
  | v :: vs => max (blocks v) (listBlocks vs)

end

/-- The values that stand for the patterns of a grammar: those of its list and those under the
names of its repository. -/
def patternValues : Value → List Value
  | .dict es => es.flatMap fun e =>
      match e.2 with
      | .list items => if isNamed "patterns" e.1 then items else []
      | .dict entries => if isNamed "repository" e.1 then entries.map (·.2) else []
      | _ => []
  | _ => []

theorem isNamed_eq_true_iff {name : String} {key : Value} :
    isNamed name key = true ↔ key = .text name := by
  cases key <;> simp [isNamed]

theorem opensBlock_eq_true_iff {es : List (Value × Value)} :
    opensBlock es = true ↔ HasKey es "begin" ∨ HasKey es "end" := by
  simp only [opensBlock, List.any_eq_true, Bool.or_eq_true, isNamed_eq_true_iff, HasKey]
  constructor
  · rintro ⟨⟨key, v⟩, he, rfl | rfl⟩
    · exact Or.inl ⟨v, he⟩
    · exact Or.inr ⟨v, he⟩
  · rintro (⟨v, he⟩ | ⟨v, he⟩)
    · exact ⟨_, he, Or.inl rfl⟩
    · exact ⟨_, he, Or.inr rfl⟩

theorem listBlocks_le_iff {vs : List Value} {n : Nat} :
    listBlocks vs ≤ n ↔ ∀ v ∈ vs, blocks v ≤ n := by
  induction vs with
  | nil => simp [listBlocks]
  | cons v vs ih => rw [listBlocks, Nat.max_le, ih, List.forall_mem_cons]

theorem innerBlocks_le_iff {es : List (Value × Value)} {n : Nat} :
    innerBlocks es ≤ n ↔
      ∀ items, (Value.text "patterns", Value.list items) ∈ es → ∀ v ∈ items, blocks v ≤ n := by
  induction es with
  | nil => simp [innerBlocks]
  | cons e es ih =>
      rcases e with ⟨key, value⟩
      have hskip : (∀ items, (key, value) ≠ (Value.text "patterns", Value.list items)) →
          ((∀ items, (Value.text "patterns", Value.list items) ∈ (key, value) :: es →
            ∀ v ∈ items, blocks v ≤ n) ↔ innerBlocks es ≤ n) := by
        intro hne
        rw [ih]
        constructor
        · intro h items hmem
          exact h items (List.mem_cons_of_mem _ hmem)
        · intro h items hmem
          rcases List.mem_cons.mp hmem with heq | hmem
          · exact absurd heq.symm (hne items)
          · exact h items hmem
      cases value with
      | list items =>
          rw [innerBlocks, Nat.max_le]
          by_cases hkey : key = .text "patterns"
          · subst hkey
            rw [if_pos (isNamed_eq_true_iff.mpr rfl), listBlocks_le_iff, ih]
            constructor
            · rintro ⟨hitems, hes⟩ others hmem
              rcases List.mem_cons.mp hmem with heq | hmem
              · cases heq
                exact hitems
              · exact hes others hmem
            · intro h
              exact ⟨h items List.mem_cons_self,
                fun others hmem => h others (List.mem_cons_of_mem _ hmem)⟩
          · rw [if_neg (fun h => hkey (isNamed_eq_true_iff.mp h)), hskip]
            · exact ⟨fun h => h.2, fun h => ⟨Nat.zero_le n, h⟩⟩
            · intro others heq
              exact hkey (Prod.mk.inj heq).1
      | _ =>
          rw [innerBlocks]
          · exact (hskip fun items heq => by cases heq).symm
          · intro _ items heq
            cases heq

end Schema
end TextMate
