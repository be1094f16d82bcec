import TextMate.Proofs.Schema.Recognition

/-!
# Which values are grammars

The checks of captures, patterns and grammars recognize the values that describe
them.  Blocks contain patterns, so the check of patterns is treated by induction
on how many blocks it lets open; what it recognizes are the patterns in which no
more blocks stand inside each other.
-/

namespace TextMate

namespace Value

theorem same_iff_of_isText {key other : Value} (h : key.IsText) :
    key.same other = true ↔ other = key := by
  cases key with
  | text s => exact Schema.same_text_iff
  | broken codes =>
      cases other with
      | broken others =>
          rw [same, beq_iff_eq, broken.injEq]
          exact eq_comm
      | _ => simp [same]
  | _ => exact h.elim

theorem dictOf_of_texts {es : List (Value × Value)} (hkeys : ∀ e ∈ es, e.1.IsText)
    (hnames : (es.map (·.1)).Nodup) : dictOf es = .dict es := by
  have hfold : ∀ rest done : List (Value × Value), (∀ e ∈ rest, e.1.IsText) →
      ((done ++ rest).map (·.1)).Nodup →
        rest.foldl (fun acc e => setEntry acc e.1 e.2) done = done ++ rest := by
    intro rest
    induction rest with
    | nil =>
        intro done _ _
        simp
    | cons e rest ih =>
        intro done htexts hnodup
        have hnew : (done.any fun d => e.1.same d.1) = false := by
          rw [List.any_eq_false]
          intro d hd hsame
          rw [same_iff_of_isText (htexts e List.mem_cons_self)] at hsame
          rw [List.map_append, List.map_cons, List.nodup_append] at hnodup
          exact hnodup.2.2 _ (List.mem_map_of_mem hd) _ List.mem_cons_self hsame
        have hset : setEntry done e.1 e.2 = done ++ [e] := by
          rw [setEntry, hnew]
          rfl
        rw [List.foldl_cons, hset, ih _ (fun d hd => htexts d (List.mem_cons_of_mem _ hd))]
        · simp
        · simpa using hnodup
  rw [dictOf, hfold es [] hkeys hnames]
  rfl

end Value

namespace Schema

/-!
## Captures
-/

theorem recognizes_capture : Recognizes (checkCapture Grammar.assembly) IsCapture := by
  have h : Recognizes
      (fun s => Form.check .capture s fun form =>
        (Capture.mk <$> form.required .name Site.text) <* form.closed)
      fun v => ∃ es, v = .dict es ∧ IsObject .capture [.name] (fun _ => Value.IsText) es := by
    apply recognizes_object (by decide)
    intro s es hnames hes
    simp [isAccepted_required recognizes_text hnames hes, Kind.fields]
  exact h

theorem recognizes_captures :
    Recognizes (checkCaptures Grammar.assembly) (IsMappingTo IsCapture) := by
  intro s hs hnumber
  have hmapping := recognizes_mapping recognizes_capture s hs hnumber
  unfold checkCaptures
  generalize hvalue : s.value = v at hs
  rw [hvalue] at hmapping
  cases hs with
  | @dict es hkeys hnames _ =>
      have hlong : (es.any fun e => isLongKey e.1) = false := by
        rw [List.any_eq_false]
        intro e he
        have hkey := hkeys e he
        generalize e.1 = key at hkey
        cases key <;> simp [isLongKey, Value.IsText] at *
      have htexts : (es.map fun e => (textKey e.1, e.2)) = es := by
        conv_rhs => rw [← List.map_id es]
        apply List.map_congr_left
        intro e he
        have hkey : textKey e.1 = e.1 := by
          have hkey := hkeys e he
          generalize e.1 = key at hkey
          cases key <;> simp [textKey, Value.IsText] at *
        rw [hkey]
        rfl
      rw [← hmapping]
      simp only [hlong, htexts, Value.dictOf_of_texts hkeys hnames, ← hvalue]
      rfl
  | _ => exact hmapping

/-!
## Patterns
-/

theorem recognizes_matching :
    Recognizes (checkMatching Grammar.assembly) fun v =>
      ∃ es, v = .dict es ∧ IsObject .matching [] matchingField es := by
  apply recognizes_object (by decide)
  intro s es hnames hes
  simp [isAccepted_optional recognizes_text hnames hes,
    isAccepted_defaulted recognizes_text hnames hes,
    isAccepted_optional recognizes_captures hnames hes, Kind.fields, matchingField, and_assoc]

theorem recognizes_reference :
    Recognizes (checkReference Grammar.assembly) fun v =>
      ∃ es, v = .dict es ∧ IsObject .reference [.target] (fun _ => Value.IsText) es := by
  apply recognizes_object (by decide)
  intro s es hnames hes
  simp [isAccepted_required recognizes_text hnames hes, Kind.fields]

theorem recognizes_block {inner : Site → Verdict Pattern} {P : Value → Prop}
    (h : Recognizes inner P) :
    Recognizes (checkBlock Grammar.assembly inner) fun v =>
      ∃ es, v = .dict es ∧ IsObject .block [.opening, .closing] (blockField P) es := by
  apply recognizes_object (by decide)
  intro s es hnames hes
  simp [checkBlockRule, isAccepted_optional recognizes_text hnames hes,
    isAccepted_required recognizes_text hnames hes,
    isAccepted_optional recognizes_captures hnames hes,
    isAccepted_optional (recognizes_list h) hnames hes, Kind.fields, blockField, and_assoc]

theorem any_same_iff {es : List (Value × Value)} {name : String} :
    (es.any fun e => (Value.text name).same e.1) = true ↔ HasKey es name := by
  rw [List.any_eq_true]
  constructor
  · rintro ⟨⟨key, v⟩, he, hsame⟩
    rw [same_text_iff] at hsame
    subst hsame
    exact ⟨v, he⟩
  · rintro ⟨v, he⟩
    exact ⟨_, he, same_text_iff.mpr rfl⟩

namespace PatternTag

variable {es : List (Value × Value)}

theorem ofEntries_reference (h : HasKey es "include") : ofEntries es = .reference := by
  unfold ofEntries
  rw [if_pos (any_same_iff.mpr h)]

theorem ofEntries_block (hinclude : ¬ HasKey es "include")
    (h : HasKey es "begin" ∨ HasKey es "end") : ofEntries es = .block := by
  unfold ofEntries
  rw [if_neg (fun hany => hinclude (any_same_iff.mp hany)), if_pos]
  rw [Bool.or_eq_true, any_same_iff, any_same_iff]
  exact h

theorem ofEntries_matching (hinclude : ¬ HasKey es "include")
    (h : ¬ (HasKey es "begin" ∨ HasKey es "end")) : ofEntries es = .matching := by
  unfold ofEntries
  rw [if_neg (fun hany => hinclude (any_same_iff.mp hany)), if_neg]
  rw [Bool.or_eq_true, any_same_iff, any_same_iff]
  exact h

end PatternTag

section Patterns

variable {α : Type} {es : List (Value × Value)}

theorem isPattern_reference_iff (h : HasKey es "include") :
    IsPattern (.dict es) ↔ IsObject .reference [.target] (fun _ => Value.IsText) es := by
  constructor
  · intro hp
    cases hp with
    | reference _ hobject => exact hobject
    | block hno => exact absurd h hno
    | matching hno => exact absurd h hno
  · exact IsPattern.reference h

theorem isPattern_block_iff (hinclude : ¬ HasKey es "include")
    (h : HasKey es "begin" ∨ HasKey es "end") :
    IsPattern (.dict es) ↔
      IsObject .block [.opening, .closing] (blockField fun _ => True) es
        ∧ ∀ items, (Value.text "patterns", Value.list items) ∈ es →
          ∀ item ∈ items, IsPattern item := by
  constructor
  · intro hp
    cases hp with
    | reference hyes => exact absurd hyes hinclude
    | block _ _ hobject hinner => exact ⟨hobject, hinner⟩
    | matching _ hno => exact absurd h hno
  · rintro ⟨hobject, hinner⟩
    exact IsPattern.block hinclude h hobject hinner

theorem isPattern_matching_iff (hinclude : ¬ HasKey es "include")
    (h : ¬ (HasKey es "begin" ∨ HasKey es "end")) :
    IsPattern (.dict es) ↔ IsObject .matching [] matchingField es := by
  constructor
  · intro hp
    cases hp with
    | reference hyes => exact absurd hyes hinclude
    | block _ hyes => exact absurd hyes h
    | matching _ _ hobject => exact hobject
  · exact IsPattern.matching hinclude h

theorem IsObject.imp {kind : Kind} {required : List Field} {allowed allowed' : Field → Value → Prop}
    (h : IsObject kind required allowed es)
    (himp : ∀ f ∈ kind.fields, ∀ v, Holds kind es f v → allowed f v → allowed' f v) :
    IsObject kind required allowed' es := by
  constructor
  · exact h.known
  · exact h.once
  · exact h.present
  · intro f hf v hholds
    exact himp f hf v hholds (h.fits f hf v hholds)

/-- What the inner patterns of a block have to be can be said apart from its other fields. -/
theorem isObject_block_iff {P : Value → Prop} :
    IsObject .block [.opening, .closing] (blockField P) es ↔
      IsObject .block [.opening, .closing] (blockField fun _ => True) es
        ∧ ∀ items, (Value.text "patterns", Value.list items) ∈ es → ∀ item ∈ items, P item := by
  constructor
  · intro h
    constructor
    · apply h.imp
      intro f _ v _ hv
      cases f with
      | patterns =>
          rcases hv with hnull | ⟨items, rfl, _⟩
          · exact Or.inl hnull
          · exact Or.inr ⟨items, rfl, fun _ _ => trivial⟩
      | _ => exact hv
    · intro items hmem
      rcases h.fits .patterns (by decide) _ (Or.inl hmem) with hnull | ⟨others, heq, hitems⟩
      · cases hnull
      · cases heq
        exact hitems
  · rintro ⟨h, hinner⟩
    apply h.imp
    intro f _ v hholds hv
    cases f with
    | patterns =>
        rcases hv with hnull | ⟨items, rfl, _⟩
        · exact Or.inl hnull
        · exact Or.inr ⟨items, rfl, hinner items (hholds.elim id id)⟩
    | _ => exact hv

theorem IsObject.not_opensBlock {required : List Field} {allowed : Field → Value → Prop}
    (h : IsObject .reference required allowed es) :
    ¬ (HasKey es "begin" ∨ HasKey es "end") := by
  have hinclude : ∀ name v, (Value.text name, v) ∈ es → name = "include" := by
    intro name v hmem
    rcases h.known _ hmem with ⟨f, hf, hkey⟩
    rw [Kind.fields, List.mem_singleton] at hf
    subst hf
    exact Value.text.inj (hkey.elim id id)
  rintro (⟨v, hmem⟩ | ⟨v, hmem⟩)
  · exact absurd (hinclude _ v hmem) (by decide)
  · exact absurd (hinclude _ v hmem) (by decide)

theorem blocks_eq_zero (h : ¬ (HasKey es "begin" ∨ HasKey es "end")) :
    blocks (.dict es) = 0 := by
  rw [blocks, if_neg (fun hopens => h (opensBlock_eq_true_iff.mp hopens))]

theorem blocks_le_succ_iff (h : HasKey es "begin" ∨ HasKey es "end") {n : Nat} :
    blocks (.dict es) ≤ n + 1 ↔
      ∀ items, (Value.text "patterns", Value.list items) ∈ es → ∀ v ∈ items, blocks v ≤ n := by
  rw [blocks, if_pos (opensBlock_eq_true_iff.mpr h), Nat.add_le_add_iff_right,
    innerBlocks_le_iff]

theorem not_isPattern_of_ne_dict {v : Value} (h : ∀ es, v ≠ .dict es) : ¬ IsPattern v := by
  intro hp
  cases hp with
  | reference => exact h _ rfl
  | block => exact h _ rfl
  | matching => exact h _ rfl

theorem Recognizes.labelled {check : Site → Verdict α} {P : List (Value × Value) → Prop}
    (h : Recognizes check fun v => ∃ es, v = .dict es ∧ P es) {s : Site} (hs : s.value.IsJson)
    (hnumber : s.number = none) (hvalue : s.value = .dict es) (steps : List Step) :
    (check (s.labelled steps)).IsAccepted ↔ P es := by
  rw [h (s.labelled steps) hs hnumber]
  constructor
  · rintro ⟨others, heq, hp⟩
    cases heq.symm.trans hvalue
    exact hp
  · intro hp
    exact ⟨es, hvalue, hp⟩

section Dispatch

variable {s : Site} {n : Nat} {opened : List Nat}

theorem checkPattern_of_ne_dict (h : ∀ es, s.value ≠ .dict es) :
    checkPattern Grammar.assembly n opened s = s.reject .pattern := by
  unfold checkPattern
  generalize s.value = v at h
  cases v with
  | dict es => exact absurd rfl (h es)
  | _ => rfl

theorem isAccepted_pattern_unless_block (hs : s.value.IsJson) (hnumber : s.number = none)
    (h : ∀ es, s.value = .dict es → ¬ HasKey es "include" →
      ¬ (HasKey es "begin" ∨ HasKey es "end")) :
    (checkPattern Grammar.assembly n opened s).IsAccepted ↔
      IsPattern s.value ∧ blocks s.value ≤ n := by
  by_cases hdict : ∃ es, s.value = .dict es
  · rcases hdict with ⟨es, hvalue⟩
    rw [hvalue]
    by_cases hinclude : HasKey es "include"
    · rw [checkPattern_reference hvalue (PatternTag.ofEntries_reference hinclude),
        recognizes_reference.labelled hs hnumber hvalue, isPattern_reference_iff hinclude]
      constructor
      · intro hobject
        rw [blocks_eq_zero hobject.not_opensBlock]
        exact ⟨hobject, Nat.zero_le n⟩
      · exact And.left
    · have hopens := h es hvalue hinclude
      rw [checkPattern_matching hvalue (PatternTag.ofEntries_matching hinclude hopens),
        recognizes_matching.labelled hs hnumber hvalue, isPattern_matching_iff hinclude hopens,
        blocks_eq_zero hopens]
      exact (and_iff_left (Nat.zero_le n)).symm
  · have hne : ∀ es, s.value ≠ .dict es := by
      intro es heq
      exact hdict ⟨es, heq⟩
    simp [checkPattern_of_ne_dict hne, not_isPattern_of_ne_dict hne]

end Dispatch

end Patterns

/-- The check of patterns recognizes the patterns in which only so many blocks stand inside
each other. -/
theorem recognizes_pattern (n : Nat) (opened : List Nat) : Recognizes
    (checkPattern Grammar.assembly n opened) fun v => IsPattern v ∧ blocks v ≤ n := by
  -- every block that opens leaves one less to open inside it
  induction n with
  | zero =>
      intro s hs hnumber
      by_cases hblock : ∃ es, s.value = .dict es ∧ ¬ HasKey es "include"
          ∧ (HasKey es "begin" ∨ HasKey es "end")
      · rcases hblock with ⟨es, hvalue, hinclude, hopens⟩
        have hblocks : blocks s.value ≠ 0 := by
          rw [hvalue, blocks, if_pos (opensBlock_eq_true_iff.mpr hopens)]
          exact Nat.succ_ne_zero _
        simp [checkPattern_block_zero hvalue (PatternTag.ofEntries_block hinclude hopens), hblocks]
      · exact isAccepted_pattern_unless_block hs hnumber
          fun es hvalue hinclude hopens => hblock ⟨es, hvalue, hinclude, hopens⟩
  | succ n ih =>
      intro s hs hnumber
      by_cases hblock : ∃ es, s.value = .dict es ∧ ¬ HasKey es "include"
          ∧ (HasKey es "begin" ∨ HasKey es "end")
      · rcases hblock with ⟨es, hvalue, hinclude, hopens⟩
        rw [checkPattern_block_succ hvalue (PatternTag.ofEntries_block hinclude hopens) hnumber,
          (recognizes_block ih).labelled hs hnumber hvalue, isObject_block_iff, hvalue]
        simp only [isPattern_block_iff hinclude hopens, blocks_le_succ_iff hopens, and_assoc,
          forall_and]
      · exact isAccepted_pattern_unless_block hs hnumber
          fun es hvalue hinclude hopens => hblock ⟨es, hvalue, hinclude, hopens⟩

/-!
## Grammars
-/

theorem mem_patternValues_iff {es : List (Value × Value)} {p : Value} :
    p ∈ patternValues (.dict es) ↔
      (∃ items, (Value.text "patterns", Value.list items) ∈ es ∧ p ∈ items)
        ∨ ∃ entries, (Value.text "repository", Value.dict entries) ∈ es
          ∧ ∃ e ∈ entries, e.2 = p := by
  rw [patternValues, List.mem_flatMap]
  constructor
  · rintro ⟨⟨key, value⟩, he, hmem⟩
    cases value with
    | list items =>
        dsimp only at hmem
        split at hmem
        · rename_i hkey
          rw [isNamed_eq_true_iff] at hkey
          subst hkey
          exact Or.inl ⟨items, he, hmem⟩
        · cases hmem
    | dict entries =>
        dsimp only at hmem
        split at hmem
        · rename_i hkey
          rw [isNamed_eq_true_iff] at hkey
          subst hkey
          exact Or.inr ⟨entries, he, List.mem_map.mp hmem⟩
        · cases hmem
    | _ => cases hmem
  · rintro (⟨items, he, hmem⟩ | ⟨entries, he, hmem⟩)
    · exact ⟨_, he, hmem⟩
    · exact ⟨_, he, List.mem_map.mpr hmem⟩

theorem isObject_grammar_iff {P Q : Value → Prop} {es : List (Value × Value)} :
    IsObject .grammar [.scopeName, .uuid] (grammarField fun v => P v ∧ Q v) es ↔
      IsObject .grammar [.scopeName, .uuid] (grammarField P) es
        ∧ ∀ p ∈ patternValues (.dict es), Q p := by
  constructor
  · intro h
    constructor
    · apply h.imp
      intro f _ v _ hv
      cases f with
      | patterns =>
          rcases hv with hnull | ⟨items, rfl, hitems⟩
          · exact Or.inl hnull
          · exact Or.inr ⟨items, rfl, fun item hitem => (hitems item hitem).1⟩
      | repository =>
          rcases hv with hnull | ⟨entries, rfl, hentries⟩
          · exact Or.inl hnull
          · exact Or.inr ⟨entries, rfl, fun e he => (hentries e he).1⟩
      | _ => exact hv
    · intro p hp
      rcases mem_patternValues_iff.mp hp with ⟨items, he, hmem⟩ | ⟨entries, he, e, hmem, rfl⟩
      · rcases h.fits .patterns (by decide) _ (Or.inl he) with hnull | ⟨_, heq, hitems⟩
        · cases hnull
        · cases heq
          exact (hitems p hmem).2
      · rcases h.fits .repository (by decide) _ (Or.inl he) with hnull | ⟨_, heq, hentries⟩
        · cases hnull
        · cases heq
          exact (hentries e hmem).2
  · rintro ⟨h, hpatterns⟩
    apply h.imp
    intro f _ v hholds hv
    cases f with
    | patterns =>
        rcases hv with hnull | ⟨items, rfl, hitems⟩
        · exact Or.inl hnull
        · apply Or.inr
          exists items, rfl
          intro item hitem
          constructor
          · exact hitems item hitem
          · exact hpatterns _ (mem_patternValues_iff.mpr (Or.inl ⟨items, hholds.elim id id, hitem⟩))
    | repository =>
        rcases hv with hnull | ⟨entries, rfl, hentries⟩
        · exact Or.inl hnull
        · apply Or.inr
          exists entries, rfl
          intro e he
          constructor
          · exact hentries e he
          · exact hpatterns _
              (mem_patternValues_iff.mpr (Or.inr ⟨entries, hholds.elim id id, e, he, rfl⟩))
    | _ => exact hv

theorem recognizes_grammar :
    Recognizes (checkGrammar Grammar.assembly) fun v =>
      IsGrammarDocument v ∧ ∀ p ∈ patternValues v, blocks p ≤ maxNesting := by
  have hpatterns : Recognizes (checkPatterns Grammar.assembly) _ :=
    recognizes_list (recognizes_pattern maxNesting [])
  have hrepository := recognizes_mapping (recognizes_pattern maxNesting [])
  have h : Recognizes
      (fun s => Form.check .grammar s fun form =>
        (Grammar.mk <$> checkHeader form
          <*> form.optional .patterns (checkPatterns Grammar.assembly)
          <*> form.optional .repository
            (Site.mapping (checkPattern Grammar.assembly maxNesting []))) <* form.closed)
      fun v => ∃ es, v = .dict es ∧ IsObject .grammar [.scopeName, .uuid]
        (grammarField fun v => IsPattern v ∧ blocks v ≤ maxNesting) es := by
    apply recognizes_object (by decide)
    intro s es hnames hes
    simp [checkHeader, isAccepted_optional recognizes_text hnames hes,
      isAccepted_required recognizes_text hnames hes,
      isAccepted_defaulted recognizes_text hnames hes,
      isAccepted_optional (recognizes_list recognizes_text) hnames hes,
      isAccepted_optional hpatterns hnames hes,
      isAccepted_optional hrepository hnames hes, Kind.fields, grammarField, and_assoc]
  intro s hs hnumber
  have hgrammar : (checkGrammar Grammar.assembly s).IsAccepted ↔ _ := h s hs hnumber
  rw [hgrammar]
  constructor
  · rintro ⟨es, hvalue, hobject⟩
    rw [hvalue]
    rw [isObject_grammar_iff] at hobject
    exact ⟨⟨es, rfl, hobject.1⟩, hobject.2⟩
  · rintro ⟨⟨es, hvalue, hobject⟩, hblocks⟩
    rw [hvalue] at hblocks
    exact ⟨es, hvalue, isObject_grammar_iff.mpr ⟨hobject, hblocks⟩⟩

end Schema

/-- A JSON value is accepted as a grammar exactly if it is the document of one, and no more
blocks stand inside each other in any of its patterns than a check follows. -/
theorem Grammar.ofValue_accepts_iff_isGrammarDocument {v : Value} (h : v.IsJson) :
    (∃ g, Grammar.ofValue v = .ok g) ↔
      Schema.IsGrammarDocument v ∧
        ∀ p ∈ Schema.patternValues v, Schema.blocks p ≤ Schema.maxNesting := by
  have htop : Schema.Site.top v = ⟨v, [], none, []⟩ := Schema.resolve_of_isJson h _ _ _
  rw [Grammar.ofValue, ← Schema.Verdict.isAccepted_iff_toExcept, htop]
  exact Schema.recognizes_grammar _ h rfl

def Schema.selfBlock : Value :=
  .dict [(.text "begin", .text "("), (.text "end", .text ")"),
    (.text "patterns", .list [.dict [(.text "include", .text "$self")]])]

theorem Schema.isPattern_selfBlock : IsPattern selfBlock := by
  have hself : IsPattern (.dict [(.text "include", .text "$self")]) := by
    apply IsPattern.reference
    · simp [HasKey]
    · constructor <;>
        simp [Kind.fields, Kind.key, Field.documentKey, Field.label, HasKey, Holds]
  apply IsPattern.block
  · simp [HasKey]
  · simp [HasKey]
  · constructor <;>
      simp [Kind.fields, Kind.key, Field.documentKey, Field.label, HasKey, Holds, blockField,
        OrNull, IsListOf]
  · simp [hself]

def Schema.mixedDocument : Value :=
  .dict [(.text "scope_name", .text "source.x"), (.text "uuid", .text "u"),
    (.text "patterns", .list [selfBlock])]

theorem Schema.isGrammarDocument_mixedDocument : IsGrammarDocument mixedDocument := by
  exists _, rfl
  constructor <;>
    simp [Kind.fields, Kind.key, Field.documentKey, Field.label, HasKey, Holds, grammarField,
      OrNull, IsListOf, isPattern_selfBlock]

theorem Schema.isJson_mixedDocument : mixedDocument.IsJson := by
  have hself : Value.IsJson (.dict [(.text "include", .text "$self")]) :=
    .dict (by simp) (by simp) (by simp [Value.IsJson.text])
  have hinner : Value.IsJson (.list [.dict [(.text "include", .text "$self")]]) :=
    .list (by simp [hself])
  have hblock : selfBlock.IsJson :=
    .dict (by simp) (by simp) (by simp [Value.IsJson.text, hinner])
  have hpatterns : Value.IsJson (.list [selfBlock]) := .list (by simp [hblock])
  exact .dict (by simp) (by simp) (by simp [Value.IsJson.text, hpatterns])

theorem Schema.mixedDocument_accepted :
    mixedDocument.IsJson ∧ ∃ g, Grammar.ofValue mixedDocument = .ok g := by
  constructor
  · exact isJson_mixedDocument
  · apply (Grammar.ofValue_accepts_iff_isGrammarDocument isJson_mixedDocument).mpr
    exact ⟨isGrammarDocument_mixedDocument, by decide⟩

end TextMate
