import TextMate.Proofs.Grammar.DocumentFields

/-!
# Keys in documents

What an editor can tell from the keys of a mapping: which form of pattern it is,
and which of its fields hold something.  A mapping shows the fields of its kind
in their order, the required ones always and an optional one exactly if it is
neither absent nor empty.  Taking marks away does not change what is shown.
-/

namespace TextMate

def HoldsText (s : Option String) : Prop :=
  ∃ t, s = some t ∧ t ≠ ""

def HoldsMembers {α : Type} (xs : Option (List α)) : Prop :=
  ∃ ys, xs = some ys ∧ ys ≠ []

@[simp] theorem isSome_filledText_iff (s : Option String) :
    (filledText s).isSome ↔ HoldsText s := by
  cases s <;> simp [filledText, HoldsText, Option.filter_some]

@[simp] theorem isSome_filledList_iff {α : Type} (xs : Option (List α)) :
    (filledList xs).isSome ↔ HoldsMembers xs := by
  cases xs <;> simp [filledList, HoldsMembers, Option.filter_some]

@[simp] theorem holdsMembers_map_iff {α β : Type} (f : α → β) (xs : List α) :
    HoldsMembers (some (xs.map f)) ↔ HoldsMembers (some xs) := by
  simp [HoldsMembers]

namespace Tree

def keys : Tree → List String
  | object members => members.map (·.1)
  | _ => []

@[simp] theorem keys_object (members : List (String × Tree)) :
    (object members).keys = members.map (·.1) := rfl

def patternKind (t : Tree) : Kind :=
  if "include" ∈ t.keys then .reference
  else if "begin" ∈ t.keys ∨ "end" ∈ t.keys then .block
  else .matching

end Tree

/-- A mapping shows the fields of a kind: its keys are those of some of the fields, in their
order; required fields are always there, and an optional one is there exactly if it holds
something. -/
structure Kind.Arranges (kind : Kind) (holds : Field → Prop) (t : Tree) : Prop where
  ordered : t.keys.Sublist (kind.fields.map kind.key)
  required : ∀ f ∈ kind.fields, kind.dropsEmpty f = false → kind.key f ∈ t.keys
  optional : ∀ f ∈ kind.fields, kind.dropsEmpty f = true → (kind.key f ∈ t.keys ↔ holds f)

theorem Kind.arranges_members {kind : Kind} {holds : Field → Prop} {tree : Field → Option Tree}
    (h : ∀ f ∈ kind.fields, (tree f).isSome ↔ kind.dropsEmpty f = false ∨ holds f) :
    kind.Arranges holds (.object (kind.members tree)) where
  ordered := kind.keys_members_sublist tree
  required f hf hrequired :=
    (key_mem_members_iff tree hf).mpr ((h f hf).mpr (Or.inl hrequired))
  optional f hf hoptional := by
    rw [Tree.keys_object, key_mem_members_iff tree hf, h f hf, hoptional]
    simp

namespace Pattern

def Holds : Pattern → Field → Prop
  | matching rule, .name => HoldsText rule.name
  | matching rule, .captures => HoldsMembers rule.captures
  | block rule _, .name => HoldsText rule.name
  | block rule _, .openingCaptures => HoldsMembers rule.openingCaptures
  | block rule _, .closingCaptures => HoldsMembers rule.closingCaptures
  | block rule _, .captures => HoldsMembers rule.captures
  | block rule _, .contentName => HoldsText rule.contentName
  | block _ patterns, .patterns => HoldsMembers patterns
  | _, _ => False

/-- The required texts of a pattern; the target of a reference is shown without one mark. -/
def requiredTexts : Pattern → List (Field × String)
  | matching rule => [(.regex, rule.regex)]
  | block rule _ => [(.opening, rule.opening), (.closing, rule.closing)]
  | reference target => [(.target, Include.unmark target)]

def captureFields : Pattern → List (Field × Captures Capture)
  | matching rule => [(.captures, rule.captures)]
  | block rule _ =>
      [(.openingCaptures, rule.openingCaptures), (.closingCaptures, rule.closingCaptures),
        (.captures, rule.captures)]
  | reference _ => []

/-- A mapping encodes a pattern: its keys announce the form of the pattern and show its fields,
its required texts are those of the pattern, even if they are empty, and its captures are those
of the pattern in order, each with the name it gives. -/
structure EncodedBy (p : Pattern) (t : Tree) : Prop where
  form : t.patternKind = p.kind
  fields : p.kind.Arranges p.Holds t
  texts : ∀ f s, (f, s) ∈ p.requiredTexts → t.member? (p.kind.key f) = some (.text s)
  captures : ∀ f cs, (f, some cs) ∈ p.captureFields → cs ≠ [] →
    t.member? (p.kind.key f) =
      some (.object (cs.map fun c => (c.1, .object [("name", .text c.2.name)])))

theorem isSome_fieldTree_iff (p : Pattern) {f : Field} (hf : f ∈ p.kind.fields) :
    (p.fieldTree f).isSome ↔ p.kind.dropsEmpty f = false ∨ p.Holds f := by
  cases p with
  | matching rule =>
      simp only [kind, Kind.fields, List.mem_cons, List.not_mem_nil, or_false] at hf
      rcases hf with rfl | rfl | rfl <;> simp [fieldTree, Holds, kind, Kind.dropsEmpty]
  | block rule patterns =>
      simp only [kind, Kind.fields, List.mem_cons, List.not_mem_nil, or_false] at hf
      rcases hf with rfl | rfl | rfl | rfl | rfl | rfl | rfl | rfl <;>
        simp [fieldTree, Holds, kind, Kind.dropsEmpty]
  | reference target =>
      simp only [kind, Kind.fields, List.mem_singleton] at hf
      subst hf
      simp [fieldTree, kind, Kind.dropsEmpty]

theorem keys_document_sublist (p : Pattern) :
    p.document.keys.Sublist (p.kind.fields.map p.kind.key) := by
  rw [document_eq_members]
  exact p.kind.keys_members_sublist p.fieldTree

theorem member?_document (p : Pattern) {f : Field} (hf : f ∈ p.kind.fields) :
    p.document.member? (p.kind.key f) = p.fieldTree f := by
  rw [document_eq_members]
  exact Kind.member?_members p.fieldTree hf

theorem patternKind_document (p : Pattern) : p.document.patternKind = p.kind := by
  have hkeys := p.keys_document_sublist.subset
  cases p with
  | matching rule =>
      have hno : ∀ key ∈ ["include", "begin", "end"], key ∉ (matching rule).document.keys := by
        intro key hkey hmem
        have hfield : key ∈ ["name", "match", "captures"] := hkeys hmem
        clear hmem
        revert key
        decide
      rw [Tree.patternKind, if_neg (hno _ (by simp)), if_neg]
      · rfl
      · simp [hno]
  | block rule patterns =>
      have hno : "include" ∉ (block rule patterns).document.keys := by
        intro hmem
        have hfield : "include" ∈ ["name", "begin", "beginCaptures", "end", "endCaptures",
          "captures", "contentName", "patterns"] := hkeys hmem
        exact absurd hfield (by decide)
      have hyes : "begin" ∈ (block rule patterns).document.keys := by
        have hfield : Field.opening ∈ Kind.fields .block := by decide
        rw [document_eq_members]
        exact (Kind.key_mem_members_iff _ hfield).mpr rfl
      rw [Tree.patternKind, if_neg hno, if_pos (Or.inl hyes)]
      rfl
  | reference target => rfl

theorem kind_unmarked (p : Pattern) : p.unmarked.kind = p.kind := by
  cases p with
  | block rule patterns => cases patterns <;> simp [kind]
  | _ => rfl

theorem holds_unmarked_iff (p : Pattern) (f : Field) : p.unmarked.Holds f ↔ p.Holds f := by
  cases p with
  | block rule patterns =>
      cases patterns with
      | none => rfl
      | some ps =>
          rw [unmarked_block]
          cases f <;> simp [Holds]
  | matching rule => rfl
  | reference target => cases f <;> rfl

theorem fieldTree_unmarked (p : Pattern) {f : Field} (hpatterns : f ≠ .patterns)
    (htarget : f ≠ .target) : p.unmarked.fieldTree f = p.fieldTree f := by
  cases p with
  | block rule patterns =>
      cases patterns with
      | none => rfl
      | some ps =>
          rw [unmarked_block]
          cases f <;> simp_all [fieldTree]
  | matching rule => rfl
  | reference target => cases f <;> simp_all [fieldTree]

theorem member?_document_unmarked (p : Pattern) {f : Field} (hf : f ∈ p.kind.fields) :
    p.unmarked.document.member? (p.kind.key f) = p.unmarked.fieldTree f := by
  rw [← kind_unmarked] at hf ⊢
  exact p.unmarked.member?_document hf

theorem encodedBy_document_unmarked (p : Pattern) : p.EncodedBy p.unmarked.document where
  form := by rw [patternKind_document, kind_unmarked]
  fields := by
    rw [document_eq_members, kind_unmarked]
    apply Kind.arranges_members
    intro f hf
    rw [← kind_unmarked] at hf
    rw [isSome_fieldTree_iff _ hf, kind_unmarked, holds_unmarked_iff]
  texts f s hmem := by
    cases p with
    | matching rule =>
        simp only [requiredTexts, List.mem_singleton, Prod.mk.injEq] at hmem
        rcases hmem with ⟨rfl, rfl⟩
        rw [member?_document_unmarked _ (by simp [kind, Kind.fields]),
          fieldTree_unmarked _ (by decide) (by decide)]
        rfl
    | block rule patterns =>
        simp only [requiredTexts, List.mem_cons, List.not_mem_nil, or_false, Prod.mk.injEq] at hmem
        rcases hmem with ⟨rfl, rfl⟩ | ⟨rfl, rfl⟩
        all_goals
          rw [member?_document_unmarked _ (by simp [kind, Kind.fields]),
            fieldTree_unmarked _ (by decide) (by decide)]
          rfl
    | reference target =>
        simp only [requiredTexts, List.mem_singleton, Prod.mk.injEq] at hmem
        rcases hmem with ⟨rfl, rfl⟩
        rfl
  captures f cs hmem hne := by
    have hfilled : filledList (some cs) = some cs := by
      cases cs with
      | nil => exact absurd rfl hne
      | cons c cs => rfl
    cases p with
    | matching rule =>
        simp only [captureFields, List.mem_singleton, Prod.mk.injEq] at hmem
        rcases hmem with ⟨rfl, hcs⟩
        rw [member?_document_unmarked _ (by simp [kind, Kind.fields]),
          fieldTree_unmarked _ (by decide) (by decide), fieldTree, ← hcs, hfilled]
        rfl
    | block rule patterns =>
        simp only [captureFields, List.mem_cons, List.not_mem_nil, or_false, Prod.mk.injEq] at hmem
        rcases hmem with ⟨rfl, hcs⟩ | ⟨rfl, hcs⟩ | ⟨rfl, hcs⟩
        all_goals
          rw [member?_document_unmarked _ (by simp [kind, Kind.fields]),
            fieldTree_unmarked _ (by decide) (by decide), fieldTree, ← hcs, hfilled]
          rfl
    | reference target => cases hmem

end Pattern

namespace Grammar

def Holds (g : Grammar) : Field → Prop
  | .schemaUri => HoldsText g.header.schemaUri
  | .name => HoldsText g.header.name
  | .fileTypes => HoldsMembers g.header.fileTypes
  | .foldingStartMarker => HoldsText g.header.foldingStartMarker
  | .foldingStopMarker => HoldsText g.header.foldingStopMarker
  | .patterns => HoldsMembers g.patterns
  | .repository => HoldsMembers g.repository
  | _ => False

theorem isSome_fieldTree_iff (g : Grammar) {f : Field} (hf : f ∈ Kind.grammar.fields) :
    (g.fieldTree f).isSome ↔ Kind.grammar.dropsEmpty f = false ∨ g.Holds f := by
  simp only [Kind.fields, List.mem_cons, List.not_mem_nil, or_false] at hf
  rcases hf with rfl | rfl | rfl | rfl | rfl | rfl | rfl | rfl | rfl | rfl | rfl <;>
    simp [fieldTree, Holds, Kind.dropsEmpty]

theorem holds_unmarkIncludes_iff (g : Grammar) (f : Field) :
    g.unmarkIncludes.Holds f ↔ g.Holds f := by
  rw [unmarkIncludes_eq]
  rcases g with ⟨header, patterns, repository⟩
  cases f with
  | patterns => cases patterns <;> simp [Holds]
  | repository => cases repository <;> simp [Holds]
  | _ => rfl

theorem arranges_plainDocument_unmarkIncludes (g : Grammar) :
    Kind.grammar.Arranges g.Holds g.unmarkIncludes.plainDocument := by
  rw [plainDocument_eq_members]
  apply Kind.arranges_members
  intro f hf
  rw [isSome_fieldTree_iff _ hf, holds_unmarkIncludes_iff]

end Grammar
end TextMate
