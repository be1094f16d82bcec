import Mathlib.Data.List.Basic
import TextMate.Proofs.Grammar.DocumentTargets
import TextMate.Proofs.Schema.Members

/-!
# Documents by fields

A grammar without empty fields has every optional field either absent or filled.
That is what a document keeps of a grammar: the documents of grammars and
patterns have one member for each field that is not left empty, in the order of
the fields.  Names in captures and in the repository of a well-formed grammar
differ, so such documents are documents of texts.
-/

namespace TextMate

def filledText (s : Option String) : Option String :=
  s.filter fun s => !s.isEmpty

def filledList {α : Type} (xs : Option (List α)) : Option (List α) :=
  xs.filter fun xs => !xs.isEmpty

@[simp] theorem filledText_none : filledText none = none := rfl

@[simp] theorem filledList_none {α : Type} : filledList (none : Option (List α)) = none := rfl

@[simp] theorem filledList_nil {α : Type} : filledList (some ([] : List α)) = none := rfl

@[simp] theorem filledList_cons {α : Type} (x : α) (xs : List α) :
    filledList (some (x :: xs)) = some (x :: xs) := rfl

theorem ne_nil_of_filledList_eq_some {α : Type} {xs : Option (List α)} {ys : List α}
    (h : filledList xs = some ys) : xs = some ys ∧ ys ≠ [] := by
  rcases Option.filter_eq_some_iff.mp h with ⟨rfl, hne⟩
  refine ⟨rfl, ?_⟩
  rintro rfl
  cases hne

theorem textMember_eq (key : String) (s : Option String) :
    textMember key s = ((filledText s).map fun s => (key, Tree.text s)).toList := by
  cases s with
  | none => rfl
  | some s =>
      rw [textMember, filledText, Option.filter_some]
      cases s.isEmpty <;> rfl

def capturesTree (cs : List (String × Capture)) : Tree :=
  .object (cs.map fun e => (e.1, e.2.document))

theorem capturesMember_eq (key : String) (captures : Captures Capture) :
    capturesMember key captures =
      ((filledList captures).map fun cs => (key, capturesTree cs)).toList := by
  cases captures with
  | none => rfl
  | some cs => cases cs <;> rfl

namespace Pattern

theorem patternsMember_eq_toList (patterns : Option (List Pattern)) :
    patternsMember patterns =
      ((filledList patterns).map fun ps => ("patterns", Tree.list (ps.map document))).toList := by
  cases patterns with
  | none => rfl
  | some ps =>
      cases ps with
      | nil => rfl
      | cons p ps =>
          rw [patternsMember, documents_eq_map]
          rfl

def kind : Pattern → Kind
  | matching _ => .matching
  | block _ _ => .block
  | reference _ => .reference

def fieldTree : Pattern → Field → Option Tree
  | matching rule, .name => (filledText rule.name).map .text
  | matching rule, .regex => some (.text rule.regex)
  | matching rule, .captures => (filledList rule.captures).map capturesTree
  | block rule _, .name => (filledText rule.name).map .text
  | block rule _, .opening => some (.text rule.opening)
  | block rule _, .openingCaptures => (filledList rule.openingCaptures).map capturesTree
  | block rule _, .closing => some (.text rule.closing)
  | block rule _, .closingCaptures => (filledList rule.closingCaptures).map capturesTree
  | block rule _, .captures => (filledList rule.captures).map capturesTree
  | block rule _, .contentName => (filledText rule.contentName).map .text
  | block _ patterns, .patterns =>
      (filledList patterns).map fun ps => .list (ps.map document)
  | reference target, .target => some (.text target)
  | _, _ => none

end Pattern

def repositoryTree (es : List (String × Pattern)) : Tree :=
  .object (es.map fun e => (e.1, e.2.document))

namespace Grammar

theorem fileTypesMember_eq (types : Option (List String)) :
    fileTypesMember types =
      ((filledList types).map fun ts => ("fileTypes", Tree.list (ts.map .text))).toList := by
  cases types with
  | none => rfl
  | some ts => cases ts <;> rfl

theorem repositoryMember_eq_toList (entries : Option (List (String × Pattern))) :
    repositoryMember entries =
      ((filledList entries).map fun es => ("repository", repositoryTree es)).toList := by
  cases entries with
  | none => rfl
  | some es => cases es <;> rfl

def fieldTree (g : Grammar) : Field → Option Tree
  | .schemaUri => (filledText g.header.schemaUri).map .text
  | .name => (filledText g.header.name).map .text
  | .scopeName => some (.text g.header.scopeName)
  | .fileTypes => (filledList g.header.fileTypes).map fun ts => .list (ts.map .text)
  | .foldingStartMarker => (filledText g.header.foldingStartMarker).map .text
  | .foldingStopMarker => (filledText g.header.foldingStopMarker).map .text
  | .firstLineMatch => some (.text g.header.firstLineMatch)
  | .injectionSelector => some (.text g.header.injectionSelector)
  | .uuid => some (.text g.header.uuid)
  | .patterns => (filledList g.patterns).map fun ps => .list (ps.map Pattern.document)
  | .repository => (filledList g.repository).map repositoryTree
  | _ => none

end Grammar

theorem Pattern.document_eq_members (p : Pattern) :
    p.document = .object (p.kind.members p.fieldTree) := by
  cases p with
  | matching rule =>
      simp only [document, textMember_eq, capturesMember_eq, Kind.members, kind, Kind.fields,
        List.filterMap_eq_flatMap_toList, List.flatMap_cons, List.flatMap_nil, fieldTree,
        Option.map_map, Option.map_some, Option.toList_some, List.append_nil, List.append_assoc]
      rfl
  | block rule patterns =>
      simp only [document, textMember_eq, capturesMember_eq, patternsMember_eq_toList,
        Kind.members, kind, Kind.fields, List.filterMap_eq_flatMap_toList, List.flatMap_cons,
        List.flatMap_nil, fieldTree, Option.map_map, Option.map_some, Option.toList_some,
        List.append_nil, List.append_assoc]
      rfl
  | reference target => simp only [document]; rfl

theorem Grammar.plainDocument_eq_members (g : Grammar) :
    g.plainDocument = .object (Kind.grammar.members g.fieldTree) := by
  simp only [plainDocument, textMember_eq, fileTypesMember_eq, Pattern.patternsMember_eq_toList,
    repositoryMember_eq_toList, Kind.members, Kind.fields, List.filterMap_eq_flatMap_toList,
    List.flatMap_cons, List.flatMap_nil, fieldTree, Option.map_map, Option.map_some,
    Option.toList_some, List.append_nil, List.append_assoc]
  rfl

/-!
## Names
-/

def NamesDiffer {α : Type} (es : Option (List (String × α))) : Prop :=
  ((es.getD []).map (·.1)).Nodup

theorem namesDiffer_none {α : Type} : NamesDiffer (none : Option (List (String × α))) :=
  List.nodup_nil

/-- Patterns with at most so many blocks inside each other and with captures that differ. -/
def Pattern.WellFormed : Nat → Pattern → Prop
  | _, matching rule => NamesDiffer rule.captures
  | _, reference _ => True
  | 0, block _ _ => False
  | nesting + 1, block rule patterns =>
      NamesDiffer rule.openingCaptures ∧ NamesDiffer rule.closingCaptures
        ∧ NamesDiffer rule.captures ∧ ∀ p ∈ patterns.getD [], WellFormed nesting p

/-- Grammars of well-formed patterns with a repository of different names. -/
structure Grammar.WellFormed (g : Grammar) : Prop where
  names : NamesDiffer g.repository
  topLevel : ∀ p ∈ g.topLevel, p.WellFormed Schema.maxNesting
  entries : ∀ e ∈ g.entries, e.2.WellFormed Schema.maxNesting

instance {α : Type} (es : Option (List (String × α))) : Decidable (NamesDiffer es) :=
  inferInstanceAs (Decidable ((es.getD []).map (·.1)).Nodup)

instance Pattern.decidableWellFormed : (nesting : Nat) → (p : Pattern) →
    Decidable (p.WellFormed nesting)
  | 0, matching rule | _ + 1, matching rule =>
      inferInstanceAs (Decidable (NamesDiffer rule.captures))
  | 0, reference _ | _ + 1, reference _ => isTrue trivial
  | 0, block _ _ => isFalse id
  | nesting + 1, block rule patterns =>
      have := decidableWellFormed nesting
      inferInstanceAs (Decidable (NamesDiffer rule.openingCaptures
        ∧ NamesDiffer rule.closingCaptures ∧ NamesDiffer rule.captures
        ∧ ∀ p ∈ patterns.getD [], p.WellFormed nesting))

instance (g : Grammar) : Decidable g.WellFormed :=
  decidable_of_iff (NamesDiffer g.repository
      ∧ (∀ p ∈ g.topLevel, p.WellFormed Schema.maxNesting)
      ∧ ∀ e ∈ g.entries, e.2.WellFormed Schema.maxNesting)
    ⟨fun h => ⟨h.1, h.2.1, h.2.2⟩, fun h => ⟨h.names, h.topLevel, h.entries⟩⟩

theorem isText_list_map {α : Type} {xs : List α} (hne : xs ≠ []) {doc : α → Tree}
    (h : ∀ x ∈ xs, (doc x).IsText) : (Tree.list (xs.map doc)).IsText := by
  refine .list (by simpa using hne) ?_
  intro t ht
  rcases List.mem_map.mp ht with ⟨x, hx, rfl⟩
  exact h x hx

theorem isText_object_map {α : Type} {es : List (String × α)} (hne : es ≠ [])
    (hnames : (es.map (·.1)).Nodup) {doc : α → Tree} (h : ∀ e ∈ es, (doc e.2).IsText) :
    (Tree.object (es.map fun e => (e.1, doc e.2))).IsText := by
  refine .object (by simpa using hne) (by simpa [Function.comp_def] using hnames) ?_
  intro m hm
  rcases List.mem_map.mp hm with ⟨e, he, rfl⟩
  exact h e he

/-- An object with texts in its fields is a document of texts unless it has no members. -/
theorem isText_members {kind : Kind} {tree : Field → Option Tree} {f : Field}
    (hf : f ∈ kind.fields) (hsome : (tree f).isSome)
    (h : ∀ f t, tree f = some t → t.IsText) : (Tree.object (kind.members tree)).IsText := by
  refine .object ?_ (kind.nodup_members tree) ?_
  · intro hnil
    rcases Option.isSome_iff_exists.mp hsome with ⟨t, ht⟩
    have hmem : (kind.key f, t) ∈ kind.members tree :=
      Kind.mem_members_iff.mpr ⟨f, hf, ht, rfl⟩
    rw [hnil] at hmem
    cases hmem
  · rintro ⟨name, t⟩ hm
    rcases Kind.mem_members_iff.mp hm with ⟨g, _, ht, _⟩
    exact h g t ht

theorem isText_filledText {s : Option String} {t : Tree}
    (h : (filledText s).map Tree.text = some t) : t.IsText := by
  rcases Option.map_eq_some_iff.mp h with ⟨s, _, rfl⟩
  exact .text s

theorem isText_capturesTree {captures : Captures Capture} (hnames : NamesDiffer captures)
    {t : Tree} (h : (filledList captures).map capturesTree = some t) : t.IsText := by
  rcases Option.map_eq_some_iff.mp h with ⟨cs, hcs, rfl⟩
  rcases ne_nil_of_filledList_eq_some hcs with ⟨rfl, hne⟩
  refine isText_object_map hne hnames fun e _ => ?_
  exact .object (by simp) (by simp) (by simpa using Tree.IsText.text _)

theorem isText_text {s : String} {t : Tree} (h : some (Tree.text s) = some t) : t.IsText := by
  cases h
  exact .text s

theorem isText_documents {patterns : Option (List Pattern)} {t : Tree}
    (hps : ∀ p ∈ patterns.getD [], p.document.IsText)
    (h : ((filledList patterns).map fun ps => Tree.list (ps.map Pattern.document)) = some t) :
    t.IsText := by
  rcases Option.map_eq_some_iff.mp h with ⟨ps, hfilled, rfl⟩
  rcases ne_nil_of_filledList_eq_some hfilled with ⟨rfl, hne⟩
  exact isText_list_map hne hps

namespace Pattern

theorem isText_document_matching {rule : MatchRule Capture} (h : NamesDiffer rule.captures) :
    (matching rule).document.IsText := by
  rw [document_eq_members]
  refine isText_members (List.mem_cons_of_mem _ List.mem_cons_self : Field.regex ∈ _) rfl ?_
  intro f t ht
  cases f with
  | name => exact isText_filledText ht
  | regex => exact isText_text ht
  | captures => exact isText_capturesTree h ht
  | _ => cases ht

theorem isText_document_reference (target : String) : (reference target).document.IsText := by
  rw [document_eq_members]
  refine isText_members (List.mem_cons_self : Field.target ∈ _) rfl ?_
  intro f t ht
  cases f with
  | target => exact isText_text ht
  | _ => cases ht

theorem isText_document_block {rule : BlockRule Capture} {patterns : Option (List Pattern)}
    (hopening : NamesDiffer rule.openingCaptures) (hclosing : NamesDiffer rule.closingCaptures)
    (hcaptures : NamesDiffer rule.captures)
    (hpatterns : ∀ p ∈ patterns.getD [], p.document.IsText) :
    (block rule patterns).document.IsText := by
  rw [document_eq_members]
  refine isText_members (List.mem_cons_of_mem _ List.mem_cons_self : Field.opening ∈ _) rfl ?_
  intro f t ht
  cases f with
  | name | contentName => exact isText_filledText ht
  | opening | closing => exact isText_text ht
  | openingCaptures => exact isText_capturesTree hopening ht
  | closingCaptures => exact isText_capturesTree hclosing ht
  | captures => exact isText_capturesTree hcaptures ht
  | patterns => exact isText_documents hpatterns ht
  | _ => cases ht

theorem WellFormed.isText_document {nesting : Nat} {p : Pattern} (h : p.WellFormed nesting) :
    p.document.IsText := by
  induction nesting generalizing p with
  | zero =>
      cases p with
      | matching rule => exact isText_document_matching h
      | block rule patterns => cases h
      | reference target => exact isText_document_reference target
  | succ nesting ih =>
      cases p with
      | matching rule => exact isText_document_matching h
      | block rule patterns =>
          rcases h with ⟨hopening, hclosing, hcaptures, hpatterns⟩
          exact isText_document_block hopening hclosing hcaptures fun p hp => ih (hpatterns p hp)
      | reference target => exact isText_document_reference target

end Pattern

theorem Grammar.WellFormed.isText_plainDocument {g : Grammar} (h : g.WellFormed) :
    g.plainDocument.IsText := by
  rw [plainDocument_eq_members]
  refine isText_members (show Field.uuid ∈ Kind.fields .grammar by decide) rfl ?_
  intro f t ht
  cases f with
  | schemaUri | name | foldingStartMarker | foldingStopMarker => exact isText_filledText ht
  | scopeName | firstLineMatch | injectionSelector | uuid => exact isText_text ht
  | fileTypes =>
      rcases Option.map_eq_some_iff.mp ht with ⟨ts, hfilled, rfl⟩
      exact isText_list_map (ne_nil_of_filledList_eq_some hfilled).2 fun s _ => .text s
  | patterns => exact isText_documents (fun p hp => (h.topLevel p hp).isText_document) ht
  | repository =>
      rcases Option.map_eq_some_iff.mp ht with ⟨es, hfilled, rfl⟩
      rcases ne_nil_of_filledList_eq_some hfilled with ⟨hes, hne⟩
      have hnames := h.names
      have hentries := h.entries
      rw [Grammar.entries, hes] at hentries
      rw [hes] at hnames
      exact isText_object_map hne hnames fun e he => (hentries e he).isText_document
  | _ => cases ht

end TextMate
