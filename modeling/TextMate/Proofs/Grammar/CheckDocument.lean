import TextMate.Proofs.Grammar.DocumentFields

/-!
# Checking documents of grammars

The document of a well-formed grammar describes the grammar without its empty
fields.  The check goes through the document in the order of the induction on the
nesting of blocks; each form of pattern is told from the names of its members.
-/

namespace TextMate

open Schema

/-!
## Grammars without empty fields
-/

def MatchRule.withoutEmpty (rule : MatchRule Capture) : MatchRule Capture :=
  { rule with name := filledText rule.name, captures := filledList rule.captures }

def BlockRule.withoutEmpty (rule : BlockRule Capture) : BlockRule Capture :=
  { rule with
    name := filledText rule.name
    openingCaptures := filledList rule.openingCaptures
    closingCaptures := filledList rule.closingCaptures
    captures := filledList rule.captures
    contentName := filledText rule.contentName }

def Header.withoutEmpty (h : Header) : Header :=
  { h with
    schemaUri := filledText h.schemaUri
    name := filledText h.name
    fileTypes := filledList h.fileTypes
    foldingStartMarker := filledText h.foldingStartMarker
    foldingStopMarker := filledText h.foldingStopMarker }

namespace Pattern

mutual

/-- The pattern with every optional field that is empty taken away, at any depth. -/
def withoutEmpty : Pattern → Pattern
  | matching rule => matching rule.withoutEmpty
  | block rule patterns => block rule.withoutEmpty (optionWithoutEmpty patterns)
  | reference target => reference target

def optionWithoutEmpty : Option (List Pattern) → Option (List Pattern)
  | some (p :: ps) => some (withoutEmpty p :: listWithoutEmpty ps)
  | _ => none

def listWithoutEmpty : List Pattern → List Pattern
  | [] => []
  | p :: ps => withoutEmpty p :: listWithoutEmpty ps

end

theorem listWithoutEmpty_eq_map (ps : List Pattern) :
    listWithoutEmpty ps = ps.map withoutEmpty := by
  induction ps with
  | nil => rfl
  | cons p ps ih => rw [listWithoutEmpty, ih, List.map_cons]

@[simp] theorem withoutEmpty_block (rule : BlockRule Capture)
    (patterns : Option (List Pattern)) :
    (block rule patterns).withoutEmpty =
      block rule.withoutEmpty ((filledList patterns).map fun ps => ps.map withoutEmpty) := by
  rw [withoutEmpty]
  cases patterns with
  | none => rfl
  | some ps =>
      cases ps with
      | nil => rfl
      | cons p ps =>
          rw [optionWithoutEmpty, listWithoutEmpty_eq_map]
          rfl

end Pattern

/-- The grammar with every optional field that is empty taken away, at any depth. -/
def Grammar.withoutEmpty (g : Grammar) : Grammar where
  header := g.header.withoutEmpty
  patterns := (filledList g.patterns).map fun ps => ps.map Pattern.withoutEmpty
  repository := (filledList g.repository).map fun es => es.map fun e => (e.1, e.2.withoutEmpty)

/-!
## Captures
-/

theorem accepts_capture (c : Capture) :
    Accepts (checkCapture Grammar.assembly) c.document c := by
  intro s hvalue _
  let tree : Field → Option Tree := fun f => if f = .name then some (.text c.name) else none
  have hdocument : c.document = .object (Kind.capture.members tree) := rfl
  rw [hdocument] at hvalue
  rw [checkCapture]
  show Form.check .capture s _ = _
  rw [Form.check_ofMembers hvalue,
    Form.required_ofMembers s (show Field.name ∈ Kind.fields .capture by decide)
      (show tree .name = _ from rfl) (accepts_text c.name), Form.closed_ofMembers]
  rfl

theorem textKey_entriesOf (members : List (String × Tree)) :
    (Value.entriesOf members).map (fun e => (textKey e.1, e.2)) = Value.entriesOf members := by
  rw [Value.entriesOf, List.map_map]
  rfl

theorem accepts_captures {cs : List (String × Capture)} (hnames : (cs.map (·.1)).Nodup) :
    Accepts (checkCaptures Grammar.assembly) (capturesTree cs) cs := by
  intro s hvalue hnumber
  have hmembers : ((cs.map fun e => (e.1, e.2.document)).map (·.1)).Nodup := by
    simpa [Function.comp_def] using hnames
  have hlong : (Value.entriesOf (cs.map fun e => (e.1, e.2.document))).any
      (fun e => isLongKey e.1) = false := by
    rw [Value.entriesOf, List.any_map, List.any_eq_false]
    intro m _
    simp [isLongKey]
  have hmapping : Accepts (Site.mapping (checkCapture Grammar.assembly)) (capturesTree cs)
      (cs.map fun e => (e.1, id e.2)) :=
    @accepts_mapping _ _ _ _ Capture.document id hnames fun e _ => accepts_capture e.2
  have hdict : s.value = .dict (Value.entriesOf (cs.map fun e => (e.1, e.2.document))) := by
    rw [hvalue, capturesTree, Tree.value_object]
    rfl
  rw [checkCaptures, hdict]
  simp only [hlong, textKey_entriesOf, Value.dictOf_entriesOf hmembers]
  rw [show (cs.map fun e => (e.1, id e.2)) = cs from List.map_id cs] at hmapping
  rw [if_neg Bool.false_ne_true, ← hdict]
  exact hmapping s hvalue hnumber

/-!
## Patterns
-/

namespace Pattern

theorem value_capturesTree_ne_null (cs : List (String × Capture)) :
    (capturesTree cs).value ≠ .null := by
  rw [capturesTree, Tree.value_object]
  exact fun h => nomatch h

theorem value_list_ne_null (items : List Tree) : (Tree.list items).value ≠ .null := by
  rw [Tree.value_list]
  exact fun h => nomatch h

theorem optional_captures {kind : Kind} {tree : Field → Option Tree} {f : Field} (s : Site)
    (hf : f ∈ kind.fields) {captures : Captures Capture} (hnames : NamesDiffer captures)
    (ht : tree f = (filledList captures).map capturesTree) :
    (Form.ofMembers kind s tree).optional f (checkCaptures Grammar.assembly) =
      .accepted (filledList captures) := by
  have haccepts : ∀ cs, filledList captures = some cs →
      Accepts (checkCaptures Grammar.assembly) (capturesTree cs) (id cs) := by
    intro cs hcs
    rcases ne_nil_of_filledList_eq_some hcs with ⟨rfl, _⟩
    exact accepts_captures hnames
  rw [Form.optional_ofMembers s hf ht value_capturesTree_ne_null haccepts, Option.map_id, id]

theorem optional_text {kind : Kind} {tree : Field → Option Tree} {f : Field} (s : Site)
    (hf : f ∈ kind.fields) {x : Option String} (ht : tree f = (filledText x).map .text) :
    (Form.ofMembers kind s tree).optional f Site.text = .accepted (filledText x) := by
  have haccepts : ∀ t, filledText x = some t → Accepts Site.text (.text t) (id t) :=
    fun t _ => accepts_text t
  rw [Form.optional_ofMembers s hf ht (fun _ h => nomatch h) haccepts, Option.map_id, id]

theorem accepts_matching {rule : MatchRule Capture} (h : NamesDiffer rule.captures) :
    Accepts (checkMatching Grammar.assembly) (matching rule).document
      (matching rule).withoutEmpty := by
  intro s hvalue _
  have hdocument : (matching rule).document =
      .object (Kind.matching.members (matching rule).fieldTree) := document_eq_members _
  rw [hdocument] at hvalue
  have hname : Field.name ∈ Kind.fields .matching := by decide
  have hregex : Field.regex ∈ Kind.fields .matching := by decide
  have hcaptures : Field.captures ∈ Kind.fields .matching := by decide
  rw [checkMatching, Form.check_ofMembers hvalue, optional_text s hname rfl,
    Form.defaulted_ofMembers s hregex rfl (accepts_text rule.regex),
    optional_captures s hcaptures h rfl, Form.closed_ofMembers]
  rfl

theorem accepts_reference (target : String) :
    Accepts (checkReference Grammar.assembly) (reference target).document (reference target) := by
  intro s hvalue _
  have hdocument : (reference target).document =
      .object (Kind.reference.members (reference target).fieldTree) := document_eq_members _
  rw [hdocument] at hvalue
  have htarget : Field.target ∈ Kind.fields .reference := by decide
  rw [checkReference, Form.check_ofMembers hvalue,
    Form.required_ofMembers s htarget rfl (accepts_text target), Form.closed_ofMembers]
  rfl

theorem accepts_list_documents {check : Site → Verdict Pattern} {patterns : Option (List Pattern)}
    (h : ∀ p ∈ patterns.getD [], Accepts check p.document p.withoutEmpty) {kind : Kind}
    {tree : Field → Option Tree} {f : Field} (s : Site) (hf : f ∈ kind.fields)
    (ht : tree f = (filledList patterns).map fun ps => .list (ps.map document)) :
    (Form.ofMembers kind s tree).optional f (Site.list check) =
      .accepted ((filledList patterns).map fun ps => ps.map withoutEmpty) := by
  have haccepts : ∀ ps, filledList patterns = some ps →
      Accepts (Site.list check) (.list (ps.map document)) (ps.map withoutEmpty) := by
    intro ps hps
    rcases ne_nil_of_filledList_eq_some hps with ⟨rfl, _⟩
    exact accepts_list h
  exact Form.optional_ofMembers s hf ht (fun ps => value_list_ne_null _) haccepts

theorem accepts_block {inner : Site → Verdict Pattern} {rule : BlockRule Capture}
    {patterns : Option (List Pattern)} (hopening : NamesDiffer rule.openingCaptures)
    (hclosing : NamesDiffer rule.closingCaptures) (hcaptures : NamesDiffer rule.captures)
    (hpatterns : ∀ p ∈ patterns.getD [], Accepts inner p.document p.withoutEmpty) :
    Accepts (checkBlock Grammar.assembly inner) (block rule patterns).document
      (block rule patterns).withoutEmpty := by
  intro s hvalue _
  have hdocument : (block rule patterns).document =
      .object (Kind.block.members (block rule patterns).fieldTree) := document_eq_members _
  rw [hdocument] at hvalue
  rw [checkBlock, Form.check_ofMembers hvalue, checkBlockRule,
    optional_text s (show Field.name ∈ Kind.block.fields by decide) rfl,
    Form.required_ofMembers s (show Field.opening ∈ Kind.block.fields by decide) rfl
      (accepts_text rule.opening),
    optional_captures s (show Field.openingCaptures ∈ Kind.block.fields by decide) hopening rfl,
    Form.required_ofMembers s (show Field.closing ∈ Kind.block.fields by decide) rfl
      (accepts_text rule.closing),
    optional_captures s (show Field.closingCaptures ∈ Kind.block.fields by decide) hclosing rfl,
    optional_captures s (show Field.captures ∈ Kind.block.fields by decide) hcaptures rfl,
    optional_text s (show Field.contentName ∈ Kind.block.fields by decide) rfl,
    accepts_list_documents hpatterns s (show Field.patterns ∈ Kind.block.fields by decide) rfl,
    Form.closed_ofMembers, withoutEmpty_block]
  rfl

def tag : Pattern → PatternTag
  | matching _ => .matching
  | block _ _ => .block
  | reference _ => .reference

theorem value_document (p : Pattern) :
    p.document.value = .dict (Value.entriesOf (p.kind.members p.fieldTree)) := by
  rw [document_eq_members, Tree.value_object]
  rfl

theorem ofEntries_document (p : Pattern) :
    PatternTag.ofEntries (Value.entriesOf (p.kind.members p.fieldTree)) = p.tag := by
  have habsent : ∀ name, name ∉ p.kind.fields.map p.kind.key →
      name ∉ (p.kind.members p.fieldTree).map (·.1) := by
    intro name hname hmem
    rcases List.mem_map.mp hmem with ⟨⟨n, t⟩, hm, rfl⟩
    rcases Kind.mem_members_iff.mp hm with ⟨f, hf, _, hkey⟩
    exact hname (List.mem_map.mpr ⟨f, hf, hkey⟩)
  have hpresent : ∀ f t, f ∈ p.kind.fields → p.fieldTree f = some t →
      p.kind.key f ∈ (p.kind.members p.fieldTree).map (·.1) := fun f t hf ht =>
    List.mem_map.mpr ⟨(p.kind.key f, t), Kind.mem_members_iff.mpr ⟨f, hf, ht, rfl⟩, rfl⟩
  rw [PatternTag.ofEntries_entriesOf]
  cases p with
  | matching rule =>
      rw [if_neg (habsent "include" (by simp only [kind]; decide)), if_neg]
      · rfl
      · rintro (hmem | hmem)
        · exact habsent "begin" (by simp only [kind]; decide) hmem
        · exact habsent "end" (by simp only [kind]; decide) hmem
  | block rule patterns =>
      rw [if_neg (habsent "include" (by simp only [kind]; decide)), if_pos]
      · rfl
      · exact Or.inl (hpresent .opening _ (by simp only [kind]; decide) rfl)
  | reference target =>
      rw [if_pos]
      · rfl
      · exact hpresent .target _ (by simp only [kind]; decide) rfl

theorem accepts_document {nesting : Nat} {p : Pattern} (h : p.WellFormed nesting)
    (opened : List Nat) :
    Accepts (checkPattern Grammar.assembly nesting opened) p.document p.withoutEmpty := by
  induction nesting generalizing p opened with
  | zero =>
      intro s hvalue hnumber
      have htag := ofEntries_document p
      cases p with
      | matching rule =>
          rw [checkPattern_matching (hvalue.trans (value_document _)) htag]
          exact (accepts_matching h).labelled hvalue hnumber _
      | block rule patterns => cases h
      | reference target =>
          rw [checkPattern_reference (hvalue.trans (value_document _)) htag]
          exact (accepts_reference target).labelled hvalue hnumber _
  | succ nesting ih =>
      intro s hvalue hnumber
      have htag := ofEntries_document p
      cases p with
      | matching rule =>
          rw [checkPattern_matching (hvalue.trans (value_document _)) htag]
          exact (accepts_matching h).labelled hvalue hnumber _
      | block rule patterns =>
          rcases h with ⟨hopening, hclosing, hcaptures, hpatterns⟩
          rw [checkPattern_block_succ (hvalue.trans (value_document _)) htag hnumber]
          exact (accepts_block hopening hclosing hcaptures
            fun p hp => ih (hpatterns p hp) opened).labelled hvalue hnumber _
      | reference target =>
          rw [checkPattern_reference (hvalue.trans (value_document _)) htag]
          exact (accepts_reference target).labelled hvalue hnumber _

end Pattern

/-!
## Grammars
-/

namespace Grammar

open Pattern

theorem accepts_fileTypes {types : Option (List String)} {kind : Kind}
    {tree : Field → Option Tree} {f : Field} (s : Site) (hf : f ∈ kind.fields)
    (ht : tree f = (filledList types).map fun ts => .list (ts.map .text)) :
    (Form.ofMembers kind s tree).optional f (Site.list Site.text) =
      .accepted (filledList types) := by
  have haccepts : ∀ ts, filledList types = some ts →
      Accepts (Site.list Site.text) (.list (ts.map .text)) (ts.map id) :=
    fun ts _ => accepts_list fun t _ => accepts_text t
  rw [Form.optional_ofMembers s hf ht (fun ts => value_list_ne_null _) haccepts]
  simp

theorem accepts_repository {g : Grammar} (h : g.WellFormed) {kind : Kind}
    {tree : Field → Option Tree} {f : Field} (s : Site) (hf : f ∈ kind.fields)
    (ht : tree f = (filledList g.repository).map repositoryTree) :
    (Form.ofMembers kind s tree).optional f
        (Site.mapping (checkPattern assembly maxNesting [])) =
      .accepted ((filledList g.repository).map fun es =>
        es.map fun e => (e.1, e.2.withoutEmpty)) := by
  have haccepts : ∀ es, filledList g.repository = some es →
      Accepts (Site.mapping (checkPattern assembly maxNesting [])) (repositoryTree es)
        (es.map fun e => (e.1, e.2.withoutEmpty)) := by
    intro es hes
    rcases ne_nil_of_filledList_eq_some hes with ⟨hrepository, _⟩
    have hnames := h.names
    have hentries := h.entries
    rw [hrepository] at hnames
    rw [entries, hrepository] at hentries
    exact accepts_mapping hnames fun e he => accepts_document (hentries e he) []
  refine Form.optional_ofMembers s hf ht (fun es => ?_) haccepts
  rw [repositoryTree, Tree.value_object]
  intro h
  cases h

/-- The document of a well-formed grammar describes the grammar without its empty fields. -/
theorem WellFormed.ofValue_plainDocument {g : Grammar} (h : g.WellFormed) :
    Grammar.ofValue g.plainDocument.value = .ok g.withoutEmpty := by
  have haccepts : Accepts (checkGrammar assembly) g.plainDocument g.withoutEmpty := by
    intro s hvalue _
    rw [plainDocument_eq_members] at hvalue
    have hpatterns : checkPatterns assembly = Site.list (checkPattern assembly maxNesting []) :=
      rfl
    rw [checkGrammar]
    show Form.check .grammar s _ = _
    rw [Form.check_ofMembers hvalue, checkHeader,
      optional_text s (show Field.schemaUri ∈ Kind.grammar.fields by decide) rfl,
      optional_text s (show Field.name ∈ Kind.grammar.fields by decide) rfl,
      Form.required_ofMembers s (show Field.scopeName ∈ Kind.grammar.fields by decide) rfl
        (accepts_text g.header.scopeName),
      accepts_fileTypes s (show Field.fileTypes ∈ Kind.grammar.fields by decide) rfl,
      optional_text s (show Field.foldingStartMarker ∈ Kind.grammar.fields by decide) rfl,
      optional_text s (show Field.foldingStopMarker ∈ Kind.grammar.fields by decide) rfl,
      Form.defaulted_ofMembers s (show Field.firstLineMatch ∈ Kind.grammar.fields by decide) rfl
        (accepts_text g.header.firstLineMatch),
      Form.defaulted_ofMembers s (show Field.injectionSelector ∈ Kind.grammar.fields by decide)
        rfl (accepts_text g.header.injectionSelector),
      Form.required_ofMembers s (show Field.uuid ∈ Kind.grammar.fields by decide) rfl
        (accepts_text g.header.uuid),
      hpatterns, accepts_list_documents (fun p hp => accepts_document (h.topLevel p hp) []) s
        (show Field.patterns ∈ Kind.grammar.fields by decide) rfl,
      accepts_repository h s (show Field.repository ∈ Kind.grammar.fields by decide) rfl,
      Form.closed_ofMembers]
    rfl
  have htop : (Site.top g.plainDocument.value).value = g.plainDocument.value
      ∧ (Site.top g.plainDocument.value).number = none := by
    rw [Site.top, resolve_value]
    exact ⟨rfl, rfl⟩
  rw [ofValue, haccepts _ htop.1 htop.2]
  rfl

end Grammar

end TextMate
