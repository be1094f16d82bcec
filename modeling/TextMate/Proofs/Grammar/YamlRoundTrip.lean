import TextMate.Proofs.Grammar.Rerendering
import TextMate.Proofs.Yaml.ReadPrint

/-!
# Reading grammars rendered as YAML

A grammar rendered as YAML is read back with its texts as they are read where
they have been written; of entries whose names are read as one the last is kept.
So what YAML makes of a document is the document of a grammar again.  It is the
document that JSON gives back exactly if no key is too long and every text is
kept where it stands.

## What YAML makes of grammars
-/

namespace TextMate

open Schema Yaml

def rereadField (column : Nat) (s : Option String) : Option String :=
  s.map (rereadText false (column + 2))

def rereadNamed {α : Type} (column : Nat) (f : α → α) (es : List (String × α)) :
    List (String × α) :=
  Site.namedOf (es.map fun e => (rereadText (isSimpleName e.1) (column + 2) e.1, f e.2))

def Capture.reread (column : Nat) (c : Capture) : Capture :=
  ⟨rereadText false (column + 4) c.name⟩

def rereadCaptures (column : Nat) (captures : Captures Capture) : Captures Capture :=
  captures.map (rereadNamed (column + 2) (Capture.reread (column + 2)))

def MatchRule.reread (column : Nat) (rule : MatchRule Capture) : MatchRule Capture where
  name := rereadField column rule.name
  regex := rereadText false (column + 2) rule.regex
  captures := rereadCaptures column rule.captures

def BlockRule.reread (column : Nat) (rule : BlockRule Capture) : BlockRule Capture where
  name := rereadField column rule.name
  opening := rereadText false (column + 2) rule.opening
  openingCaptures := rereadCaptures column rule.openingCaptures
  closing := rereadText false (column + 2) rule.closing
  closingCaptures := rereadCaptures column rule.closingCaptures
  captures := rereadCaptures column rule.captures
  contentName := rereadField column rule.contentName

def Header.reread (h : Header) : Header where
  schemaUri := rereadField 0 h.schemaUri
  name := rereadField 0 h.name
  scopeName := rereadText false 2 h.scopeName
  fileTypes := h.fileTypes.map fun types => types.map (rereadText false 2)
  foldingStartMarker := rereadField 0 h.foldingStartMarker
  foldingStopMarker := rereadField 0 h.foldingStopMarker
  firstLineMatch := rereadText false 2 h.firstLineMatch
  injectionSelector := rereadText false 2 h.injectionSelector
  uuid := rereadText false 2 h.uuid

namespace Pattern

mutual

def reread (column : Nat) : Pattern → Pattern
  | matching rule => matching (rule.reread (column + 2))
  | block rule patterns => block (rule.reread (column + 2)) (optionReread (column + 2) patterns)
  | reference target => reference (rereadText false (column + 4) target)

def optionReread (column : Nat) : Option (List Pattern) → Option (List Pattern)
  | some ps => some (listReread column ps)
  | none => none

def listReread (column : Nat) : List Pattern → List Pattern
  | [] => []
  | p :: ps => reread column p :: listReread column ps

end

theorem listReread_eq_map (column : Nat) (ps : List Pattern) :
    listReread column ps = ps.map (reread column) := by
  induction ps with
  | nil => rfl
  | cons p ps ih => rw [listReread, ih, List.map_cons]

@[simp] theorem reread_block (column : Nat) (rule : BlockRule Capture)
    (patterns : Option (List Pattern)) :
    (block rule patterns).reread column =
      block (rule.reread (column + 2)) (patterns.map fun ps => ps.map (reread (column + 2))) := by
  rw [reread]
  cases patterns with
  | none => rfl
  | some ps =>
      rw [optionReread, listReread_eq_map]
      rfl

end Pattern

/-- A grammar as it is read where it has been written as YAML. -/
def Grammar.reread (g : Grammar) : Grammar where
  header := g.header.reread
  patterns := g.patterns.map fun ps => ps.map (Pattern.reread 0)
  repository := g.repository.map (rereadNamed 2 (Pattern.reread 2))

/-!
## Documents
-/

theorem isSimpleName_key (kind : Kind) : ∀ f ∈ kind.fields, isSimpleName (kind.key f) = true := by
  cases kind <;> decide

theorem mergedMembers_members {kind : Kind} {tree : Field → Option Tree} (column : Nat) :
    Tree.mergedMembers (rereadMembers column (kind.members tree)) =
      kind.members fun f => (tree f).map fun t => (Yaml.reread column true t).merged := by
  have hfields : ∀ fs : List Field, (∀ f ∈ fs, isSimpleName (kind.key f) = true) →
      Tree.mergedMembers (rereadMembers column
          (fs.filterMap fun f => (tree f).map fun t => (kind.key f, t))) =
        fs.filterMap fun f => ((tree f).map fun t => (Yaml.reread column true t).merged).map
          fun t => (kind.key f, t) := by
    intro fs hsimple
    induction fs with
    | nil => rfl
    | cons f fs ih =>
        have ih := ih fun g hg => hsimple g (List.mem_cons_of_mem _ hg)
        cases hf : tree f with
        | none =>
            rw [List.filterMap_cons_none (by rw [hf]; rfl),
              List.filterMap_cons_none (by rw [hf]; rfl), ih]
        | some t =>
            rw [List.filterMap_cons_some (by rw [hf]; rfl),
              List.filterMap_cons_some (by rw [hf]; rfl), rereadMembers, Tree.mergedMembers, ih,
              hsimple f List.mem_cons_self, rereadText_key]
  exact hfields kind.fields (isSimpleName_key kind)

theorem merged_members {kind : Kind} {tree tree' : Field → Option Tree} (column : Nat)
    (h : ∀ f, tree' f = (tree f).map fun t => (Yaml.reread column true t).merged) :
    (Tree.object (rereadMembers column (kind.members tree))).merged =
      .object (kind.members tree') := by
  rw [Tree.merged, mergedMembers_members, ← funext h,
    Site.namedOf_of_nodup (kind.nodup_members tree')]

theorem merged_filledText (column : Nat) (s : Option String) :
    (filledText (rereadField column s)).map Tree.text =
      ((filledText s).map Tree.text).map fun t => (Yaml.reread column true t).merged := by
  cases s with
  | none => rfl
  | some s =>
      by_cases hs : s = ""
      · subst hs
        rw [rereadField, Option.map_some, rereadText_empty]
        rfl
      · have hread := rereadText_ne_empty false (column + 2) hs
        rw [rereadField, Option.map_some, filledText, filledText, Option.filter_some,
          Option.filter_some, if_pos (by simpa using hread), if_pos (by simpa using hs)]
        rfl

theorem merged_entries {α : Type} {doc : α → Tree} {f : α → α} {column : Nat}
    {es : List (String × α)}
    (h : ∀ e ∈ es, ∀ level, (Yaml.reread column level (doc e.2)).merged = doc (f e.2)) :
    (Tree.object (rereadMembers column (es.map fun e => (e.1, doc e.2)))).merged =
      .object ((rereadNamed column f es).map fun e => (e.1, doc e.2)) := by
  have hmembers : Tree.mergedMembers (rereadMembers column (es.map fun e => (e.1, doc e.2))) =
      (es.map fun e => (rereadText (isSimpleName e.1) (column + 2) e.1, f e.2)).map fun e =>
        (e.1, doc e.2) := by
    induction es with
    | nil => rfl
    | cons e es ih =>
        rw [List.map_cons, rereadMembers, Tree.mergedMembers, h e List.mem_cons_self,
          ih fun e he => h e (List.mem_cons_of_mem _ he)]
        rfl
  rw [Tree.merged, hmembers, Site.namedOf_map]
  rfl

theorem filledList_of_ne_nil {α : Type} {xs : List α} (h : xs ≠ []) :
    filledList (some xs) = some xs := by
  cases xs with
  | nil => exact absurd rfl h
  | cons x xs => rfl

theorem rereadNamed_ne_nil {α : Type} {column : Nat} {f : α → α} {es : List (String × α)}
    (h : es ≠ []) : rereadNamed column f es ≠ [] :=
  Site.namedOf_ne_nil (by simpa using h)

theorem merged_capture (column : Nat) (level : Bool) (c : Capture) :
    (Yaml.reread column level c.document).merged = (c.reread column).document := by
  let tree (c : Capture) (f : Field) : Option Tree :=
    if f = .name then some (.text c.name) else none
  have hdocument : ∀ c : Capture, c.document = .object (Kind.capture.members (tree c)) :=
    fun _ => rfl
  rw [hdocument, hdocument, Yaml.reread]
  refine merged_members (column + 2) fun f => ?_
  by_cases hf : f = .name
  · simp only [tree, hf, if_true]
    rfl
  · simp only [tree, hf, if_false]
    rfl

theorem merged_filledEntries {α : Type} {doc : α → Tree} {f : α → α} {column : Nat}
    {entries : Option (List (String × α))}
    (h : ∀ e ∈ entries.getD [], ∀ level,
      (Yaml.reread (column + 2) level (doc e.2)).merged = doc (f e.2)) :
    ((filledList (entries.map (rereadNamed (column + 2) f))).map fun es =>
        Tree.object (es.map fun e => (e.1, doc e.2))) =
      ((filledList entries).map fun es => Tree.object (es.map fun e => (e.1, doc e.2))).map
        fun t => (Yaml.reread column true t).merged := by
  cases entries with
  | none => rfl
  | some es =>
      cases es with
      | nil => rfl
      | cons e es =>
          rw [Option.map_some, filledList_of_ne_nil (rereadNamed_ne_nil (List.cons_ne_nil e es)),
            filledList_cons, Option.map_some, Option.map_some, Option.map_some, Yaml.reread]
          exact congrArg some (@merged_entries _ _ _ _ (e :: es) h).symm

theorem merged_filledCaptures (column : Nat) (captures : Captures Capture) :
    (filledList (rereadCaptures column captures)).map capturesTree =
      ((filledList captures).map capturesTree).map fun t =>
        (Yaml.reread column true t).merged :=
  merged_filledEntries fun e _ level => merged_capture (column + 2) level e.2

theorem mergedItems_map {α : Type} {doc : α → Tree} {f : α → α} {column : Nat} {xs : List α}
    (h : ∀ x ∈ xs, (Yaml.reread column false (doc x)).merged = doc (f x)) :
    Tree.mergedItems (rereadItems column (xs.map doc)) = (xs.map f).map doc := by
  induction xs with
  | nil => rfl
  | cons x xs ih =>
      rw [List.map_cons, rereadItems, Tree.mergedItems, h x List.mem_cons_self,
        ih fun y hy => h y (List.mem_cons_of_mem _ hy)]
      rfl

theorem merged_filledItems {α : Type} {doc : α → Tree} {f : α → α} {column : Nat}
    {items : Option (List α)}
    (h : ∀ x ∈ items.getD [], (Yaml.reread column false (doc x)).merged = doc (f x)) :
    ((filledList (items.map fun xs => xs.map f)).map fun xs => Tree.list (xs.map doc)) =
      ((filledList items).map fun xs => Tree.list (xs.map doc)).map fun t =>
        (Yaml.reread column true t).merged := by
  cases items with
  | none => rfl
  | some xs =>
      cases xs with
      | nil => rfl
      | cons x xs =>
          rw [Option.map_some, List.map_cons, filledList_cons, filledList_cons, Option.map_some,
            Option.map_some, Option.map_some, Yaml.reread, Tree.merged, if_pos rfl]
          exact congrArg (fun ts => some (Tree.list ts)) (@mergedItems_map _ _ _ _ (x :: xs) h).symm

namespace Pattern

theorem merged_reread_block {rule : BlockRule Capture} {patterns : Option (List Pattern)}
    {column : Nat} (h : ∀ p ∈ patterns.getD [],
      (Yaml.reread (column + 2) false p.document).merged = (p.reread (column + 2)).document)
    (level : Bool) :
    (Yaml.reread column level (block rule patterns).document).merged =
      ((block rule patterns).reread column).document := by
  rw [reread_block, document_eq_members, document_eq_members, Yaml.reread]
  refine merged_members (column + 2) fun f => ?_
  cases f with
  | name | contentName => exact merged_filledText _ _
  | openingCaptures | closingCaptures | captures => exact merged_filledCaptures _ _
  | patterns => exact merged_filledItems h
  | _ => rfl

theorem merged_reread_document (p : Pattern) (column : Nat) (level : Bool) :
    (Yaml.reread column level p.document).merged = (p.reread column).document := by
  induction p using inductionOn generalizing column level with
  | matching rule =>
      rw [document_eq_members, document_eq_members, Yaml.reread]
      refine merged_members (column + 2) fun f => ?_
      cases f with
      | name => exact merged_filledText _ _
      | captures => exact merged_filledCaptures _ _
      | _ => rfl
  | reference target =>
      rw [document_eq_members, document_eq_members, Yaml.reread]
      refine merged_members (column + 2) fun f => ?_
      cases f <;> rfl
  | absent rule => exact merged_reread_block (by rintro p ⟨⟩) level
  | block rule ps ih => exact @merged_reread_block rule (some ps) _ (fun p hp => ih p hp _ _) level

theorem namesDiffer_rereadNamed {α : Type} (column : Nat) (f : α → α)
    (es : Option (List (String × α))) : NamesDiffer (es.map (rereadNamed column f)) := by
  cases es with
  | none => exact namesDiffer_none
  | some es => exact Site.nodup_namedOf _

theorem WellFormed.reread {nesting : Nat} {p : Pattern} (h : p.WellFormed nesting) (column : Nat) :
    (p.reread column).WellFormed nesting := by
  induction nesting generalizing p column with
  | zero =>
      cases p with
      | matching rule => exact namesDiffer_rereadNamed _ _ _
      | block rule patterns => cases h
      | reference target => exact wellFormed_reference _ _
  | succ nesting ih =>
      cases p with
      | matching rule => exact namesDiffer_rereadNamed _ _ _
      | block rule patterns =>
          rw [reread_block]
          refine ⟨namesDiffer_rereadNamed _ _ _, namesDiffer_rereadNamed _ _ _,
            namesDiffer_rereadNamed _ _ _, ?_⟩
          intro q hq
          cases patterns with
          | none => cases hq
          | some ps =>
              rcases List.mem_map.mp hq with ⟨p, hp, rfl⟩
              exact ih (h.2.2.2 p hp) _
      | reference target => exact wellFormed_reference _ _

end Pattern

namespace Grammar

theorem merged_reread_plainDocument (g : Grammar) :
    (Tree.object (rereadMembers 0 (Kind.grammar.members g.fieldTree))).merged =
      g.reread.plainDocument := by
  rw [plainDocument_eq_members]
  refine merged_members 0 fun f => ?_
  cases f with
  | schemaUri | name | foldingStartMarker | foldingStopMarker => exact merged_filledText _ _
  | fileTypes => exact merged_filledItems fun s _ => rfl
  | patterns => exact merged_filledItems fun p _ => p.merged_reread_document 0 false
  | repository => exact merged_filledEntries fun e _ level => e.2.merged_reread_document 2 level
  | _ => rfl

theorem WellFormed.reread {g : Grammar} (h : g.WellFormed) : g.reread.WellFormed where
  names := Pattern.namesDiffer_rereadNamed _ _ _
  topLevel := by
    intro q hq
    rw [Grammar.topLevel, Grammar.reread] at hq
    cases hpatterns : g.patterns with
    | none =>
        rw [hpatterns] at hq
        cases hq
    | some ps =>
        rw [hpatterns] at hq
        rcases List.mem_map.mp hq with ⟨p, hp, rfl⟩
        exact (h.topLevel p (by rw [Grammar.topLevel, hpatterns]; exact hp)).reread 0
  entries := by
    intro e he
    rw [Grammar.entries, Grammar.reread] at he
    cases hrepository : g.repository with
    | none =>
        rw [hrepository] at he
        cases he
    | some es =>
        rw [hrepository] at he
        rcases List.mem_map.mp (Site.mem_of_mem_namedOf he) with ⟨d, hd, rfl⟩
        exact (h.entries d (by rw [Grammar.entries, hrepository]; exact hd)).reread 2

/-!
## Reading
-/

/-- Where keys fit, the YAML of a grammar is read as the document of what is read of the
grammar. -/
theorem WellFormed.read_print_yaml {g : Grammar} (h : g.WellFormed)
    (hfits : KeysFit g.plainDocument) :
    Format.yaml.read (Format.yaml.print g.plainDocument) = .ok g.reread.plainDocument.value := by
  have htext := h.isText_plainDocument
  rw [plainDocument_eq_members] at htext hfits ⊢
  rw [Format.read, Format.print, read_print htext hfits, merged_reread_plainDocument]
  rfl

theorem WellFormed.ofText_print_yaml_ne_ok {g : Grammar} (h : g.WellFormed)
    (hfits : ¬ KeysFit g.plainDocument) (g' : Grammar) :
    Grammar.ofText .yaml (Format.yaml.print g.plainDocument) ≠ .ok g' := by
  have htext := h.isText_plainDocument
  rw [plainDocument_eq_members] at htext hfits ⊢
  rw [Grammar.ofText, Format.read, Format.print]
  cases hread : Yaml.read (Yaml.print (.object (Kind.grammar.members g.fieldTree))) with
  | error fault => rintro ⟨⟩
  | ok v => exact absurd hread (read_print_ne_ok htext hfits v)

theorem WellFormed.plainDocument_reread_eq_self_iff {g : Grammar} (h : g.WellFormed) :
    g.reread.plainDocument = g.plainDocument ↔
      KeepsMembers 0 (Kind.grammar.members g.fieldTree) := by
  have htext := h.isText_plainDocument
  rw [plainDocument_eq_members] at htext
  rw [← merged_reread_plainDocument, plainDocument_eq_members]
  cases htext with
  | object _ hnames hmembers =>
      exact merged_object_eq_self_iff hnames
        (mergedMembers_rereadMembers_eq_self_iff _ hmembers 0)

/-- Rendered as YAML and as JSON a grammar is read back as the same exactly if no key in front of a
colon is too long and every text is kept where it stands. -/
theorem formats_agree_iff {g : Grammar} {y j : Rendering} (hread : g.IsRead)
    (hy : g.render .yaml = .ok y) (hj : g.render .json = .ok j) :
    (∃ h, Grammar.ofText .yaml y.text = .ok h ∧ Grammar.ofText .json j.text = .ok h) ↔
      ∃ members, g.document = .ok (.object members) ∧ KeysFit (.object members)
        ∧ KeepsMembers 0 members := by
  have hwell := hread.wellFormed.unmarkIncludes
  have hjson := hwell.ofText_print
  rw [← (document_of_render hj).2] at hjson
  rcases document_of_render hy with ⟨hdocument, htext⟩
  have hmembers := g.unmarkIncludes.plainDocument_eq_members
  rw [hjson, htext]
  constructor
  · rintro ⟨h, hyaml, heq⟩
    cases heq
    have hfits : KeysFit g.unmarkIncludes.plainDocument := Classical.byContradiction
      fun hno => hwell.ofText_print_yaml_ne_ok hno _ hyaml
    rw [ofText_of_read hwell.reread (hwell.read_print_yaml hfits), Except.ok.injEq] at hyaml
    -- grammars that differ in empty fields only have one document
    have hsame := congrArg plainDocument hyaml
    rw [plainDocument_withoutEmpty, plainDocument_withoutEmpty] at hsame
    exact ⟨_, hdocument.trans (congrArg _ hmembers), hmembers ▸ hfits,
      hwell.plainDocument_reread_eq_self_iff.mp hsame⟩
  · rintro ⟨members, hobject, hfits, hkeeps⟩
    rw [hdocument, hmembers, Except.ok.injEq, Tree.object.injEq] at hobject
    subst hobject
    rw [← hmembers] at hfits
    have hsame := hwell.read_print_yaml hfits
    rw [hwell.plainDocument_reread_eq_self_iff.mpr hkeeps] at hsame
    exact ⟨_, ofText_of_read hwell hsame, rfl⟩

def lookalikes : Grammar where
  header := ⟨none, some "1e3", "source.x", some ["yes", ""], none, none, "", "", "\t\u0085"⟩
  patterns := some [.matching ⟨none, "'#\"\n", some [("1", ⟨"null"⟩)]⟩]
  repository := some [("a: b", .reference "$self")]

theorem lookalikes_wellFormed : lookalikes.WellFormed := by decide

/-- Such a grammar is the same in both formats. -/
theorem lookalikes_agree :
    lookalikes.IsRead ∧ ∃ y j h, lookalikes.render .yaml = .ok y ∧ lookalikes.render .json = .ok j
      ∧ Grammar.ofText .yaml y.text = .ok h ∧ Grammar.ofText .json j.text = .ok h := by
  have hread : lookalikes.IsRead := lookalikes_wellFormed.isRead rfl
  have hdangling : lookalikes.report.dangling? = none := rfl
  have hy := render_of_dangling?_eq_none hdangling .yaml
  have hj := render_of_dangling?_eq_none hdangling .json
  rcases (formats_agree_iff hread hy hj).mpr
    ⟨_, rfl, by decide +kernel, by decide +kernel⟩ with ⟨h, hagree⟩
  exact ⟨hread, _, _, h, hy, hj, hagree⟩

end Grammar

end TextMate
