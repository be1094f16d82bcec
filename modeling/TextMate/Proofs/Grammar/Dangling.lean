import Mathlib.Data.List.Basic
import TextMate.Grammar.Render
import TextMate.Proofs.Grammar.Codes
import TextMate.Proofs.Grammar.Place

/-!
# Dangling references

A reference dangles at a place if it stands there and asks for an entry that the
repository does not define.  The main result says that rendering fails exactly
on these, and that the failure lists all of them: the target and location of
every place where a reference dangles, each place once, in the order of places.
-/

namespace TextMate

namespace Grammar

/-- Whether a reference with this target stands at a place and has no entry to refer to. -/
def DanglesAt (g : Grammar) (place : Place) (target : String) : Prop :=
  g.at? place = some (.reference target) ∧ ∃ name, target = "#" ++ name ∧ name ∉ g.names

def danglingTarget? (g : Grammar) : Pattern → Option String
  | .reference target =>
      (Include.entryName? target).bind fun name =>
        if g.names.contains name then none else some target
  | _ => none

def danglingVisits (g : Grammar) : List (Place × String) :=
  g.visits.filterMap fun v => (g.danglingTarget? v.2).map fun target => (v.1, target)

theorem danglingTarget?_eq_some_iff {g : Grammar} {p : Pattern} {target : String} :
    g.danglingTarget? p = some target ↔
      p = .reference target ∧ ∃ name, target = "#" ++ name ∧ name ∉ g.names := by
  cases p with
  | matching rule => simp [danglingTarget?]
  | block rule ps => simp [danglingTarget?]
  | reference other =>
      simp only [danglingTarget?, Option.bind_eq_some_iff, Include.entryName?_eq_some_iff,
        Pattern.reference.injEq, List.contains_iff_mem]
      constructor
      · rintro ⟨name, hname, h⟩
        split at h
        · cases h
        · rename_i hmem
          cases h
          exact ⟨rfl, name, hname, hmem⟩
      · rintro ⟨rfl, name, hname, hmem⟩
        exact ⟨name, hname, if_neg hmem⟩

theorem mem_danglingVisits_iff {g : Grammar} {place : Place} {target : String} :
    (place, target) ∈ g.danglingVisits ↔ g.DanglesAt place target := by
  simp only [danglingVisits, List.mem_filterMap, Option.map_eq_some_iff]
  constructor
  · rintro ⟨⟨place', p⟩, hv, target', ht, heq⟩
    cases heq
    rcases danglingTarget?_eq_some_iff.mp ht with ⟨rfl, hname⟩
    exact ⟨(g.mem_visits_iff _ _).mp hv, hname⟩
  · rintro ⟨hat, hname⟩
    exact ⟨(place, .reference target), (g.mem_visits_iff _ _).mpr hat, target,
      danglingTarget?_eq_some_iff.mpr ⟨rfl, hname⟩, rfl⟩

theorem pairwise_danglingVisits (g : Grammar) :
    g.danglingVisits.Pairwise fun v w => v.1.Precedes w.1 := by
  refine g.pairwise_visits.filterMap _ ?_
  rintro v w hvw v' hv w' hw
  rcases Option.map_eq_some_iff.mp hv with ⟨_, _, rfl⟩
  rcases Option.map_eq_some_iff.mp hw with ⟨_, _, rfl⟩
  exact hvw

end Grammar

/-!
## Errors of a report
-/

namespace Report

theorem filterMap_danglingPair_ofPattern (g : Grammar) (location : String) (p : Pattern) :
    (ofPattern g.names.contains location p).filterMap danglingPair =
      ((g.danglingTarget? p).map fun target => (target, some location)).toList := by
  have hcaptures : (∀ target, p ≠ .reference target) →
      (ofPattern g.names.contains location p).filterMap danglingPair = [] := by
    intro hp
    rw [List.filterMap_eq_nil_iff]
    intro i hi
    rcases eq_captureKey_of_mem_ofPattern hp hi with ⟨_, key, rfl⟩
    rfl
  cases p with
  | matching rule => exact hcaptures (by simp)
  | block rule ps => exact hcaptures (by simp)
  | reference target =>
      simp only [ofPattern, ofTarget, Grammar.danglingTarget?, Include.entryName?]
      split
      · rename_i hl
        simp [hl, danglingPair, Issue.emptyInclude]
      · rename_i rest hl
        simp only [hl, Option.bind_some]
        split
        · rfl
        · rfl
      · rename_i rest hl
        simp [hl, danglingPair, Issue.doubleMarker]
      · rename_i hhash _
        split
        · rename_i rest hl
          exact absurd hl (hhash rest)
        · rfl

/-- The pairs that a report takes from its issues are those of the dangling references. -/
theorem filterMap_danglingPair_report (g : Grammar) :
    g.report.issues.filterMap danglingPair =
      g.danglingVisits.map fun v => (v.2, some (g.location v.1)) := by
  have hscope : (ofScopeName g.header.scopeName).filterMap danglingPair = [] := by
    unfold ofScopeName
    split <;> rfl
  have hunused : ∀ names : List String,
      (names.map fun name => Issue.unusedEntry name (.text name)).filterMap danglingPair = [] := by
    intro names
    rw [List.filterMap_eq_nil_iff]
    intro i hi
    rcases List.mem_map.mp hi with ⟨name, _, rfl⟩
    rfl
  simp only [Grammar.report, List.filterMap_append, hscope, hunused, List.nil_append,
    List.append_nil]
  rw [List.filterMap_flatMap, g.walk_eq_visits, List.flatMap_map, Grammar.danglingVisits,
    List.map_filterMap, List.filterMap_eq_flatMap_toList]
  congr 1
  funext v
  rw [filterMap_danglingPair_ofPattern, Option.map_map]
  rfl

/-- The references that a report raises are the dangling ones. -/
theorem dangling?_report (g : Grammar) :
    g.report.dangling? = DanglingReferences.ofList?
      (g.danglingVisits.map fun v => (v.2, some (g.location v.1))) := by
  rw [dangling?, filterMap_danglingPair_report]

theorem danglingPair_isSome_of_error {g : Grammar} {i : Issue} (hi : i ∈ g.report.issues)
    (h : i.severity = .error) : (danglingPair i).isSome := by
  rcases mem_report_cases hi with rfl | ⟨node, _, hi⟩ | ⟨name, rfl⟩
  · cases h
  · rcases mem_ofPattern_cases hi with ⟨target, _, hi⟩ | ⟨_, _, key, rfl⟩
    · rcases mem_ofTarget_cases hi with ⟨_, rfl⟩ | rfl | rfl
      · cases h
      · rfl
      · cases h
    · cases h
  · cases h

theorem isValid_iff_dangling?_eq_none (g : Grammar) :
    g.report.isValid = true ↔ g.report.dangling? = none := by
  rw [isValid, Bool.not_eq_true', ← Bool.not_eq_true, dangling?,
    DanglingReferences.ofList?_eq_none_iff, List.filterMap_eq_nil_iff, List.any_eq_true]
  constructor
  · intro hno i hi
    by_cases hs : i.severity = .error
    · exact absurd ⟨i, hi, by rw [hs]; rfl⟩ hno
    · have hs' : (i.severity == Severity.error) = false := by
        rw [beq_eq_false_iff_ne]
        exact hs
      simp [danglingPair, hs']
  · rintro hall ⟨i, hi, hs⟩
    have hsome := danglingPair_isSome_of_error hi (beq_iff_eq.mp hs)
    rw [hall i hi] at hsome
    cases hsome

end Report

/-!
## Rendering
-/

namespace Grammar

theorem render_of_dangling? {g : Grammar} {d : DanglingReferences}
    (h : g.report.dangling? = some d) (format : Format) : g.render format = .error d := by
  unfold render prepare
  simp only [h]
  rfl

theorem render_of_dangling?_eq_none {g : Grammar} (h : g.report.dangling? = none)
    (format : Format) :
    g.render format =
      .ok ⟨format.print g.unmarkIncludes.plainDocument, format, g.report.warnings⟩ := by
  unfold render prepare
  simp only [h]
  rfl

/-- Rendering a grammar fails exactly with the references its report raises. -/
theorem render_eq_error_iff_dangling? (g : Grammar) (format : Format) (d : DanglingReferences) :
    g.render format = .error d ↔ g.report.dangling? = some d := by
  cases h : g.report.dangling? with
  | none => simp [render_of_dangling?_eq_none h]
  | some found => simp [render_of_dangling? h]

theorem exists_render_eq_ok_iff (g : Grammar) (format : Format) :
    (∃ r, g.render format = .ok r) ↔ g.report.dangling? = none := by
  cases h : g.report.dangling? with
  | none => simp [render_of_dangling?_eq_none h]
  | some found => simp [render_of_dangling? h]

/-- Rendering fails exactly where references dangle, and then with all of them in order. -/
theorem render_fails_exactly_on_dangling_references (g : Grammar) (format : Format) :
    ∃ occurrences : List (Place × String),
      (occurrences.Pairwise fun v w => v.1.Precedes w.1)
        ∧ (∀ place target, (place, target) ∈ occurrences ↔ g.DanglesAt place target)
        ∧ (∀ d, g.render format = .error d ↔
            d.toList = occurrences.map fun v => (v.2, some (g.location v.1)))
        ∧ ((∃ r, g.render format = .ok r) ↔ ∀ place target, ¬ g.DanglesAt place target)
        ∧ (g.report.isValid = true ↔ g.report.dangling? = none)
        ∧ (g.report.dangling? = none ↔ ∃ r, g.render format = .ok r) := by
  refine ⟨g.danglingVisits, g.pairwise_danglingVisits, fun _ _ => mem_danglingVisits_iff,
    ?_, ?_, Report.isValid_iff_dangling?_eq_none g, (g.exists_render_eq_ok_iff format).symm⟩
  · intro d
    rw [render_eq_error_iff_dangling?, Report.dangling?_report]
    constructor
    · exact DanglingReferences.toList_of_ofList?
    · intro h
      rw [← h]
      rfl
  · rw [exists_render_eq_ok_iff, Report.dangling?_report,
      DanglingReferences.ofList?_eq_none_iff, List.map_eq_nil_iff]
    constructor
    · intro h place target hd
      have hmem := mem_danglingVisits_iff.mpr hd
      rw [h] at hmem
      cases hmem
    · intro h
      rw [List.eq_nil_iff_forall_not_mem]
      rintro ⟨place, target⟩ hmem
      exact h place target (mem_danglingVisits_iff.mp hmem)

end Grammar
end TextMate
