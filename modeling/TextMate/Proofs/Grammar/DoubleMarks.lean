import TextMate.Proofs.Grammar.Codes
import TextMate.Proofs.Grammar.Rerendering
import TextMate.Proofs.Grammar.Same

/-!
# Targets with two marks

Only one mark is taken away from a target, so a second one stays, and taking
marks away again would change the grammar once more.  A report warns of exactly
these targets.  The main result says that this warning tells the grammars that
are not settled after one transformation from all others.
-/

namespace TextMate

def Issue.WarnsOfTwoMarks (i : Issue) : Prop :=
  i.severity = .warning ∧ i.code = "DOUBLE_EXTERNAL_MARKER"

def Report.WarnsOfTwoMarks (r : Report) : Prop :=
  ∃ i ∈ r.issues, i.WarnsOfTwoMarks

theorem Include.eq_two_marks_iff (target : String) :
    (∃ rest, target = "!!" ++ rest) ↔ ∃ cs, target.toList = '!' :: '!' :: cs := by
  constructor
  · rintro ⟨rest, rfl⟩
    exact ⟨rest.toList, by simp⟩
  · rintro ⟨cs, hcs⟩
    refine ⟨String.ofList cs, ?_⟩
    rw [← String.toList_inj, hcs]
    simp

namespace Report

theorem exists_warnsOfTwoMarks_ofTarget_iff (defines : String → Bool)
    (location target : String) :
    (∃ i ∈ ofTarget defines location target, i.WarnsOfTwoMarks) ↔
      ∃ rest, target = "!!" ++ rest := by
  rw [Include.eq_two_marks_iff]
  unfold ofTarget
  split
  · rename_i hl
    simp [hl, Issue.WarnsOfTwoMarks, Issue.emptyInclude]
  · rename_i rest hl
    simp only [hl, List.cons.injEq]
    split
    · simp
    · simp [Issue.WarnsOfTwoMarks, Issue.dangling]
  · rename_i rest hl
    simp [hl, Issue.WarnsOfTwoMarks, Issue.doubleMarker]
  · rename_i hno
    simp only [List.not_mem_nil, false_and, exists_false, false_iff, not_exists]
    exact hno

/-- The issues of a pattern warn of two marks exactly if it is a reference whose target has
them. -/
theorem exists_warnsOfTwoMarks_ofPattern_iff (defines : String → Bool) (location : String)
    (p : Pattern) :
    (∃ i ∈ ofPattern defines location p, i.WarnsOfTwoMarks) ↔
      ∃ rest, p.target? = some ("!!" ++ rest) := by
  have hcaptures : (∀ target, p ≠ .reference target) →
      ¬ ∃ i ∈ ofPattern defines location p, i.WarnsOfTwoMarks := by
    rintro hp ⟨i, hi, hwarns⟩
    rcases eq_captureKey_of_mem_ofPattern hp hi with ⟨_, key, rfl⟩
    exact absurd hwarns.2 (by decide : "INVALID_CAPTURE_KEY" ≠ "DOUBLE_EXTERNAL_MARKER")
  cases p with
  | reference target =>
      simp only [ofPattern, Pattern.target?, Option.some.injEq]
      exact exists_warnsOfTwoMarks_ofTarget_iff defines location target
  | matching rule => simpa [Pattern.target?] using hcaptures (by simp)
  | block rule ps => simpa [Pattern.target?] using hcaptures (by simp)

theorem warnsOfTwoMarks_report_iff (g : Grammar) :
    g.report.WarnsOfTwoMarks ↔ ∃ rest, "!!" ++ rest ∈ g.targets := by
  have hwalk : (∃ v ∈ g.visits, ∃ rest, v.2.target? = some ("!!" ++ rest)) ↔
      ∃ rest, "!!" ++ rest ∈ g.targets := by
    simp only [Grammar.targets_eq_filterMap_visits, List.mem_filterMap]
    constructor
    · rintro ⟨v, hv, rest, hrest⟩
      exact ⟨rest, v, hv, hrest⟩
    · rintro ⟨rest, v, hv, hrest⟩
      exact ⟨v, hv, rest, hrest⟩
  rw [← hwalk, WarnsOfTwoMarks]
  simp only [Grammar.report, g.walk_eq_visits, List.mem_append, List.mem_flatMap, List.mem_map]
  constructor
  · rintro ⟨i, (hi | ⟨node, ⟨v, hv, rfl⟩, hi⟩) | ⟨name, _, rfl⟩, hwarns⟩
    · rw [eq_of_mem_ofScopeName hi] at hwarns
      exact absurd hwarns.2 (by decide : "INVALID_SCOPE_NAME" ≠ "DOUBLE_EXTERNAL_MARKER")
    · exact ⟨v, hv, (exists_warnsOfTwoMarks_ofPattern_iff _ _ _).mp ⟨i, hi, hwarns⟩⟩
    · simp [Issue.WarnsOfTwoMarks, Issue.unusedEntry] at hwarns
  · rintro ⟨v, hv, hrest⟩
    rcases (exists_warnsOfTwoMarks_ofPattern_iff g.names.contains (g.location v.1) v.2).mpr hrest
      with ⟨i, hi, hwarns⟩
    exact ⟨i, Or.inl (Or.inr ⟨_, ⟨v, hv, rfl⟩, hi⟩), hwarns⟩

end Report

namespace Grammar

theorem unmarkIncludes_unmarkIncludes_eq_iff (g : Grammar) :
    g.unmarkIncludes.unmarkIncludes = g.unmarkIncludes ↔ ∀ rest, "!!" ++ rest ∉ g.targets := by
  constructor
  · intro heq rest hmem
    have htargets := congrArg targets heq
    rw [targets_unmarkIncludes, targets_unmarkIncludes, List.map_map] at htargets
    have hfix := List.map_inj_left.mp htargets _ hmem
    exact (Include.unmark_unmark_eq_iff _).mp hfix rest rfl
  · exact unmarkIncludes_unmarkIncludes

/-- Taking marks away again changes nothing exactly if the report on the grammar does not warn of
two marks: the result is equal, and passes the test for being the same. -/
theorem unmarking_again_changes_nothing_iff_no_warning {g : Grammar} (hread : g.IsRead) :
    (g.unmarkIncludes.unmarkIncludes = g.unmarkIncludes ↔ ¬ g.report.WarnsOfTwoMarks)
      ∧ (g.unmarkIncludes.unmarkIncludes.same g.unmarkIncludes = true ↔
          ¬ g.report.WarnsOfTwoMarks) := by
  have hequal : g.unmarkIncludes.unmarkIncludes = g.unmarkIncludes ↔
      ¬ g.report.WarnsOfTwoMarks := by
    rw [unmarkIncludes_unmarkIncludes_eq_iff, Report.warnsOfTwoMarks_report_iff, not_exists]
  have hdiffer : g.unmarkIncludes.names.Nodup := hread.wellFormed.unmarkIncludes.names
  refine ⟨hequal, ?_⟩
  rw [same_iff_eq (names_unmarkIncludes _) hdiffer, hequal]

def doublyMarked : Grammar where
  header := ⟨none, none, "source.x", none, none, none, "", "", "u"⟩
  patterns := some [.reference "!"]
  repository := some [("here", .block ⟨none, "(", none, ")", none, none, none⟩
    (some [.reference "$self", .reference "!!#here"]))]

theorem doublyMarked_wellFormed : doublyMarked.WellFormed := by decide

/-- Such a grammar can be read, its report warns of two marks, and it is not settled. -/
theorem doublyMarked_not_settled :
    doublyMarked.IsRead ∧ doublyMarked.report.WarnsOfTwoMarks
      ∧ ¬ doublyMarked.unmarkIncludes.unmarkIncludes.same doublyMarked.unmarkIncludes = true := by
  have hread : doublyMarked.IsRead := doublyMarked_wellFormed.isRead rfl
  have hwarns : doublyMarked.report.WarnsOfTwoMarks := by
    rw [Report.warnsOfTwoMarks_report_iff]
    exact ⟨"#here", by decide⟩
  refine ⟨hread, hwarns, ?_⟩
  rw [(unmarking_again_changes_nothing_iff_no_warning hread).2]
  exact not_not_intro hwarns

end Grammar
end TextMate
