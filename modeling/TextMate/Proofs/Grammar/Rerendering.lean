import TextMate.Proofs.Grammar.JsonRoundTrip

/-!
# Rendering again

A rendered grammar can be read, and the grammar that is read can be rendered
once more.  The first rendering has already dropped everything empty, so the
second one can differ only in the targets of references: it takes a second mark
away, and it looks at entries that a mark had hidden before.

## Marks that are left
-/

namespace TextMate

namespace Include

theorem isMarked_eq_true_iff (target : String) :
    isMarked target = true ↔ ∃ rest, target = "!" ++ rest := by
  unfold isMarked
  rw [beq_iff_eq]
  constructor
  · intro h
    rcases List.head?_eq_some_iff.mp h with ⟨rest, hrest⟩
    exists String.ofList rest
    rw [← String.toList_inj, hrest]
    simp
  · rintro ⟨rest, rfl⟩
    simp

theorem unmark_eq_self_iff (target : String) :
    unmark target = target ↔ isMarked target = false := by
  constructor
  · intro h
    apply Bool.eq_false_iff.mpr
    intro hmarked
    rcases (isMarked_eq_true_iff target).mp hmarked with ⟨rest, rfl⟩
    rw [unmark_mark] at h
    have hlength := congrArg String.length h
    simp at hlength
  · exact unmark_eq_self

theorem isMarked_unmark_iff (target : String) :
    isMarked (unmark target) = true ↔ ∃ rest, target = "!!" ++ rest := by
  have htwo : ∀ rest : String, "!" ++ ("!" ++ rest) = "!!" ++ rest := by
    intro rest
    rw [← String.toList_inj]
    simp
  rw [isMarked_eq_true_iff]
  constructor
  · rintro ⟨rest, h⟩
    rcases eq_or_eq_mark_of_unmark h with heq | heq
    · -- a target that still has a mark is not what is left of itself
      rw [heq, unmark_mark] at h
      have hlength := congrArg String.length h
      simp at hlength
    · exact ⟨rest, by rw [heq, htwo]⟩
  · rintro ⟨rest, rfl⟩
    exists rest
    rw [← htwo, unmark_mark]

theorem unmark_unmark_eq_iff (target : String) :
    unmark (unmark target) = unmark target ↔ ∀ rest, target ≠ "!!" ++ rest := by
  rw [unmark_eq_self_iff, Bool.eq_false_iff, Ne, isMarked_unmark_iff, not_exists]

end Include

namespace Pattern

theorem unmarked_eq_self {p : Pattern} (h : ∀ target ∈ p.targets, Include.unmark target = target) :
    p.unmarked = p := by
  induction p using inductionOn with
  | matching rule => rfl
  | reference target =>
      rw [unmarked_reference, h target (by simp)]
  | absent rule => rfl
  | block rule ps ih =>
      have hps : ps.map unmarked = ps.map id := by
        apply List.map_congr_left
        intro p hp
        apply ih p hp
        intro target htarget
        apply h
        rw [targets_block]
        exact List.mem_flatMap.mpr ⟨p, hp, htarget⟩
      rw [unmarked_block, hps, List.map_id]

end Pattern

namespace Grammar

theorem unmarkIncludes_eq_self {g : Grammar}
    (h : ∀ target ∈ g.targets, Include.unmark target = target) : g.unmarkIncludes = g := by
  rw [targets_eq] at h
  have htop : ∀ ps, g.patterns = some ps → ps.map Pattern.unmarked = ps := by
    intro ps hps
    conv_rhs => rw [← List.map_id ps]
    apply List.map_congr_left
    intro p hp
    apply Pattern.unmarked_eq_self
    intro target htarget
    apply h
    apply List.mem_append_left
    rw [topLevel, hps]
    exact List.mem_flatMap.mpr ⟨p, hp, htarget⟩
  have hentries : ∀ es, g.repository = some es → (es.map fun e => (e.1, e.2.unmarked)) = es := by
    intro es hes
    conv_rhs => rw [← List.map_id es]
    apply List.map_congr_left
    intro e he
    have hp : e.2.unmarked = e.2 := by
      apply Pattern.unmarked_eq_self
      intro target htarget
      apply h
      apply List.mem_append_right
      rw [entries, hes]
      exact List.mem_flatMap.mpr ⟨e, he, htarget⟩
    rw [hp]
    rfl
  rw [unmarkIncludes_eq]
  rcases g with ⟨header, patterns, repository⟩
  congr
  · cases patterns with
    | none => rfl
    | some ps => rw [Option.map_some, htop ps rfl]
  · cases repository with
    | none => rfl
    | some es => rw [Option.map_some, hentries es rfl]

theorem unmarkIncludes_unmarkIncludes {g : Grammar} (h : ∀ rest, "!!" ++ rest ∉ g.targets) :
    g.unmarkIncludes.unmarkIncludes = g.unmarkIncludes := by
  apply unmarkIncludes_eq_self
  rw [targets_unmarkIncludes]
  intro target htarget
  rcases List.mem_map.mp htarget with ⟨authored, hauthored, rfl⟩
  rw [Include.unmark_unmark_eq_iff]
  rintro rest rfl
  exact h rest hauthored

end Grammar

/-!
## Grammars without empty fields

Empty fields hold no references and are not part of documents.
-/

theorem textMember_filledText (key : String) (s : Option String) :
    textMember key (filledText s) = textMember key s := by
  cases s with
  | none => rfl
  | some s =>
      rw [filledText, Option.filter_some]
      cases hs : s.isEmpty <;> simp [textMember, hs]

theorem capturesMember_filledList (key : String) (captures : Captures Capture) :
    capturesMember key (filledList captures) = capturesMember key captures := by
  cases captures with
  | none => rfl
  | some cs => cases cs <;> rfl

namespace Pattern

theorem targets_withoutEmpty (p : Pattern) : p.withoutEmpty.targets = p.targets := by
  induction p using inductionOn with
  | matching rule => rfl
  | reference target => rfl
  | absent rule => rfl
  | block rule ps ih =>
      rw [withoutEmpty_block]
      cases ps with
      | nil => rfl
      | cons p ps =>
          rw [filledList_cons, Option.map_some, targets_block, targets_block, List.flatMap_map]
          exact List.flatMap_congr ih

theorem unmarked_withoutEmpty (p : Pattern) :
    p.withoutEmpty.unmarked = p.unmarked.withoutEmpty := by
  induction p using inductionOn with
  | matching rule => rfl
  | reference target => rfl
  | absent rule => rfl
  | block rule ps ih =>
      rw [withoutEmpty_block, unmarked_block, withoutEmpty_block]
      cases ps with
      | nil => rfl
      | cons p ps =>
          simp only [List.map_cons, filledList_cons, Option.map_some, unmarked_block, List.map_map]
          rw [ih p List.mem_cons_self]
          congr 3
          apply List.map_congr_left
          intro q hq
          exact ih q (List.mem_cons_of_mem p hq)

theorem patternsMember_withoutEmpty {patterns : Option (List Pattern)}
    (h : ∀ p ∈ patterns.getD [], p.withoutEmpty.document = p.document) :
    patternsMember ((filledList patterns).map fun ps => ps.map withoutEmpty) =
      patternsMember patterns := by
  cases patterns with
  | none => rfl
  | some ps =>
      have hdocuments : (ps.map withoutEmpty).map document = ps.map document := by
        rw [List.map_map]
        exact List.map_congr_left h
      rw [patternsMember_eq, patternsMember_eq]
      cases ps with
      | nil => rfl
      | cons p ps =>
          rw [filledList_cons, Option.map_some, Option.getD_some, hdocuments]
          rfl

theorem document_withoutEmpty (p : Pattern) : p.withoutEmpty.document = p.document := by
  induction p using inductionOn with
  | matching rule =>
      simp only [withoutEmpty, document, MatchRule.withoutEmpty, textMember_filledText,
        capturesMember_filledList]
  | reference target => rfl
  | absent rule =>
      simp only [withoutEmpty_block, document, BlockRule.withoutEmpty, textMember_filledText,
        capturesMember_filledList, filledList_none, Option.map_none]
  | block rule ps ih =>
      simp only [withoutEmpty_block, document, BlockRule.withoutEmpty, textMember_filledText,
        capturesMember_filledList]
      have hps := @patternsMember_withoutEmpty (some ps) ih
      rw [hps]

end Pattern

namespace Grammar

theorem entries_withoutEmpty (g : Grammar) :
    g.withoutEmpty.entries = g.entries.map fun e => (e.1, e.2.withoutEmpty) := by
  rcases g with ⟨header, patterns, repository⟩
  cases repository with
  | none => rfl
  | some es => cases es <;> rfl

theorem topLevel_withoutEmpty (g : Grammar) :
    g.withoutEmpty.topLevel = g.topLevel.map Pattern.withoutEmpty := by
  rcases g with ⟨header, patterns, repository⟩
  cases patterns with
  | none => rfl
  | some ps => cases ps <;> rfl

theorem names_withoutEmpty (g : Grammar) : g.withoutEmpty.names = g.names := by
  rw [names, entries_withoutEmpty, List.map_map]
  rfl

theorem targets_withoutEmpty (g : Grammar) : g.withoutEmpty.targets = g.targets := by
  rw [targets_eq, targets_eq, topLevel_withoutEmpty, entries_withoutEmpty, List.flatMap_map,
    List.flatMap_map]
  simp only [Pattern.targets_withoutEmpty]

theorem fileTypesMember_filledList (types : Option (List String)) :
    fileTypesMember (filledList types) = fileTypesMember types := by
  cases types with
  | none => rfl
  | some ts => cases ts <;> rfl

theorem repositoryMember_withoutEmpty (repository : Option (List (String × Pattern))) :
    repositoryMember ((filledList repository).map fun es => es.map fun e =>
      (e.1, e.2.withoutEmpty)) = repositoryMember repository := by
  cases repository with
  | none => rfl
  | some es =>
      cases es with
      | nil => rfl
      | cons e es =>
          simp [repositoryMember, Pattern.document_withoutEmpty]

theorem plainDocument_withoutEmpty (g : Grammar) :
    g.withoutEmpty.plainDocument = g.plainDocument := by
  simp only [plainDocument, withoutEmpty, Header.withoutEmpty, textMember_filledText,
    fileTypesMember_filledList, repositoryMember_withoutEmpty]
  rw [Pattern.patternsMember_withoutEmpty fun p _ => p.document_withoutEmpty]

theorem unmarkIncludes_withoutEmpty (g : Grammar) :
    g.withoutEmpty.unmarkIncludes = g.unmarkIncludes.withoutEmpty := by
  rcases g with ⟨header, patterns, repository⟩
  rw [unmarkIncludes_eq, unmarkIncludes_eq, withoutEmpty, withoutEmpty]
  congr 1
  · cases patterns with
    | none => rfl
    | some ps => cases ps <;> simp [Pattern.unmarked_withoutEmpty]
  · cases repository with
    | none => rfl
    | some es => cases es <;> simp [Pattern.unmarked_withoutEmpty]

/-!
## Reading and rendering
-/

/-- The indented document of a well-formed grammar is read as the grammar without its empty
fields. -/
theorem WellFormed.ofText_print {g : Grammar} (h : g.WellFormed) :
    Grammar.ofText .json (Format.json.print g.plainDocument) = .ok g.withoutEmpty := by
  apply ofText_of_read h
  rw [Format.read, Format.print, Json.read_print h.isText_plainDocument]
  rfl

theorem WellFormed.targets_eq_of_print_eq {g h : Grammar} (hg : g.WellFormed) (hh : h.WellFormed)
    (heq : Format.json.print g.plainDocument = Format.json.print h.plainDocument) :
    g.targets = h.targets := by
  have hread := hg.ofText_print
  rw [heq, hh.ofText_print] at hread
  have hempty : h.withoutEmpty = g.withoutEmpty := Except.ok.inj hread
  rw [← targets_withoutEmpty g, ← targets_withoutEmpty h, hempty]

/-- The grammar that is read from a rendered one can be rendered exactly if the entries that
marks had hidden are defined. -/
theorem exists_render_withoutEmpty_iff {g : Grammar} {r : Rendering} {format : Format}
    (h : g.render format = .ok r) :
    (∃ r', g.unmarkIncludes.withoutEmpty.render .json = .ok r') ↔
      ∀ name, "!#" ++ name ∈ g.targets → name ∈ g.names := by
  have hdefined := (g.exists_render_eq_ok_iff_targets format).mp ⟨r, h⟩
  rw [exists_render_eq_ok_iff_targets]
  simp only [targets_withoutEmpty, names_withoutEmpty, names_unmarkIncludes,
    entry_mem_targets_unmarkIncludes_iff]
  constructor
  · intro hall name hmem
    exact hall name (Or.inr hmem)
  · intro hall name hmem
    rcases hmem with hmem | hmem
    · exact hdefined name hmem
    · exact hall name hmem

/-- Rendering what was read from a rendered grammar gives the same text exactly if no target has
two marks and all entries behind a mark are defined. -/
theorem rendering_again_keeps_text_iff {g : Grammar} {r : Rendering} (hread : g.IsRead)
    (h : g.render .json = .ok r) :
    (∃ g' r', Grammar.ofText .json r.text = .ok g' ∧ g'.render .json = .ok r'
        ∧ r'.text = r.text) ↔
      (∀ rest, "!!" ++ rest ∉ g.targets) ∧ ∀ name, "!#" ++ name ∈ g.targets → name ∈ g.names := by
  have hwell := hread.wellFormed.unmarkIncludes
  have htext := (document_of_render h).2
  have hagain : Grammar.ofText .json r.text = .ok g.unmarkIncludes.withoutEmpty := by
    rw [htext]
    exact hwell.ofText_print
  -- the second text is that of the grammar with two marks taken away
  have hsecond : ∀ r', g.unmarkIncludes.withoutEmpty.render .json = .ok r' →
      r'.text = Format.json.print g.unmarkIncludes.unmarkIncludes.plainDocument := by
    intro r' hr'
    rw [(document_of_render hr').2, unmarkIncludes_withoutEmpty, plainDocument_withoutEmpty]
  constructor
  · rintro ⟨g', r', hg', hr', hsame⟩
    rw [hagain] at hg'
    cases hg'
    constructor
    · intro rest hmem
      rw [hsecond r' hr', htext] at hsame
      have htargets := hwell.unmarkIncludes.targets_eq_of_print_eq hwell hsame
      rw [targets_unmarkIncludes, targets_unmarkIncludes, List.map_map] at htargets
      have hfix := List.map_inj_left.mp htargets _ hmem
      exact (Include.unmark_unmark_eq_iff _).mp hfix rest rfl
    · exact (exists_render_withoutEmpty_iff h).mp ⟨r', hr'⟩
  · rintro ⟨hmarks, hdefined⟩
    rcases (exists_render_withoutEmpty_iff h).mpr hdefined with ⟨r', hr'⟩
    refine ⟨_, r', hagain, hr', ?_⟩
    rw [hsecond r' hr', unmarkIncludes_unmarkIncludes hmarks, htext]

theorem WellFormed.isRead {g : Grammar} (h : g.WellFormed) (hfull : g.withoutEmpty = g) :
    g.IsRead := by
  have hvalue := h.ofValue_plainDocument
  rw [hfull] at hvalue
  exact Or.inl ⟨_, hvalue⟩

def settling : Grammar where
  header := ⟨none, none, "source.x", none, none, none, "", "", "u"⟩
  patterns := some [.reference "!source.y",
    .block ⟨none, "(", none, ")", none, none, none⟩ (some [.reference "!#here", .reference ""])]
  repository := some [("here", .reference "$self")]

theorem settling_wellFormed : settling.WellFormed := by decide

/-- Such a grammar has reached its final text when it is rendered once. -/
theorem settling_keeps_text :
    settling.IsRead ∧ ∃ r g' r', settling.render .json = .ok r
      ∧ Grammar.ofText .json r.text = .ok g' ∧ g'.render .json = .ok r' ∧ r'.text = r.text := by
  have hread : settling.IsRead := settling_wellFormed.isRead rfl
  have hr := render_of_dangling?_eq_none (show settling.report.dangling? = none from rfl) .json
  have htargets : settling.targets = ["!source.y", "!#here", "", "$self"] := by rfl
  have hmarks : ∀ rest, "!!" ++ rest ∉ settling.targets := by
    intro rest hmem
    rw [htargets] at hmem
    simp [← String.toList_inj] at hmem
  have hdefined : ∀ name, "!#" ++ name ∈ settling.targets → name ∈ settling.names := by
    intro name hmem
    rw [htargets] at hmem
    have hname : name = "here" := by simpa [← String.toList_inj] using hmem
    rw [hname]
    exact List.mem_singleton.mpr rfl
  rcases (rendering_again_keeps_text_iff hread hr).mpr ⟨hmarks, hdefined⟩ with ⟨g', r', hagain⟩
  exact ⟨hread, _, g', r', hr, hagain⟩

end Grammar
end TextMate
