import TextMate.Proofs.Grammar.Dangling

/-!
# Findings by severity

The errors of a report are the references that dangle, in the order of the walk,
and its information concerns the entries that nothing asks for, in the order of
the repository.  All that is found elsewhere is only warned of.
-/

namespace TextMate

def Issue.entryName? (i : Issue) : Option String :=
  match i.subject with
  | some (.text target) => Include.entryName? target
  | _ => none

@[simp] theorem Issue.entryName?_dangling (location target : String) :
    (Issue.dangling location target).entryName? = Include.entryName? target := rfl

namespace Report

/-!
## One pattern
-/

theorem filter_severity_eq_nil {issues : List Issue} {severity : Severity}
    (h : ∀ i ∈ issues, i.severity ≠ severity) :
    issues.filter (fun i => i.severity == severity) = [] := by
  rw [List.filter_eq_nil_iff]
  intro i hi hsame
  exact h i hi (beq_iff_eq.mp hsame)

theorem filter_severity_ofScopeName {severity : Severity} (name : String)
    (hne : severity ≠ .warning) :
    (ofScopeName name).filter (fun i => i.severity == severity) = [] := by
  apply filter_severity_eq_nil
  intro i hi
  rw [eq_of_mem_ofScopeName hi]
  exact hne.symm

theorem filter_error_ofTarget (defines : String → Bool) (location target : String) :
    (ofTarget defines location target).filter (fun i => i.severity == .error) =
      ((Include.entryName? target).bind fun name =>
        if defines name then none else some (Issue.dangling location target)).toList := by
  unfold ofTarget Include.entryName?
  split
  · rename_i hl
    simp [hl, Issue.emptyInclude]
  · rename_i rest hl
    simp only [hl, Option.bind_some]
    split
    · rfl
    · rfl
  · rename_i rest hl
    simp [hl, Issue.doubleMarker]
  · rename_i hhash _
    split
    · rename_i rest hl
      exact absurd hl (hhash rest)
    · rfl

theorem filter_error_ofPattern (g : Grammar) (location : String) (p : Pattern) :
    (ofPattern g.names.contains location p).filter (fun i => i.severity == .error) =
      ((g.danglingTarget? p).map (Issue.dangling location)).toList := by
  have hcaptures : (∀ target, p ≠ .reference target) →
      (ofPattern g.names.contains location p).filter (fun i => i.severity == .error) = [] := by
    intro hp
    apply filter_severity_eq_nil
    intro i hi
    rcases eq_captureKey_of_mem_ofPattern hp hi with ⟨_, key, rfl⟩
    exact (by decide : Severity.warning ≠ .error)
  cases p with
  | reference target =>
      rw [ofPattern, filter_error_ofTarget, Grammar.danglingTarget?, Option.map_bind]
      congr 2
      funext name
      rw [Function.comp_apply]
      split
      · rfl
      · rfl
  | matching rule => exact hcaptures (by simp)
  | block rule ps => exact hcaptures (by simp)

theorem filter_info_ofPattern (defines : String → Bool) (location : String) (p : Pattern) :
    (ofPattern defines location p).filter (fun i => i.severity == .info) = [] := by
  apply filter_severity_eq_nil
  intro i hi
  rcases mem_ofPattern_cases hi with ⟨target, _, hi⟩ | ⟨_, _, key, rfl⟩
  · rcases mem_ofTarget_cases hi with ⟨_, rfl⟩ | rfl | rfl
    · exact (by decide : Severity.warning ≠ .info)
    · exact (by decide : Severity.error ≠ .info)
    · exact (by decide : Severity.warning ≠ .info)
  · exact (by decide : Severity.warning ≠ .info)

/-!
## The whole report
-/

variable (g : Grammar)

theorem withSeverity_error :
    g.report.withSeverity .error =
      g.walk.filterMap fun node => (g.danglingTarget? node.2).map (Issue.dangling node.1) := by
  have hunused : ∀ names : List String,
      (names.map fun name => Issue.unusedEntry name (.text name)).filter
        (fun i => i.severity == .error) = [] := by
    intro names
    rw [List.filter_map, List.map_eq_nil_iff, List.filter_eq_nil_iff]
    intro name _
    exact Bool.false_ne_true
  unfold withSeverity Grammar.report
  dsimp only
  rw [List.filter_append, List.filter_append, filter_severity_ofScopeName _ (by decide), hunused,
    List.nil_append, List.append_nil, List.filter_flatMap, List.filterMap_eq_flatMap_toList]
  simp only [filter_error_ofPattern]

theorem withSeverity_info :
    g.report.withSeverity .info =
      (g.names.filter fun name =>
        !(g.targets.filterMap Include.entryName?).contains name).map
          fun name => Issue.unusedEntry name (.text name) := by
  have hunused : ∀ names : List String,
      (names.map fun name => Issue.unusedEntry name (.text name)).filter
          (fun i => i.severity == .info) =
        names.map fun name => Issue.unusedEntry name (.text name) := by
    intro names
    rw [List.filter_eq_self]
    intro i hi
    rcases List.mem_map.mp hi with ⟨name, _, rfl⟩
    rfl
  unfold withSeverity Grammar.report
  dsimp only
  rw [List.filter_append, List.filter_append, filter_severity_ofScopeName _ (by decide), hunused,
    List.nil_append, List.filter_flatMap]
  simp only [filter_info_ofPattern]
  rw [List.flatMap_eq_nil_iff.mpr fun _ _ => rfl, List.nil_append]

theorem isValid_iff_withSeverity_error_eq_nil :
    g.report.isValid = true ↔ g.report.withSeverity .error = [] := by
  rw [isValid, withSeverity, List.filter_eq_nil_iff, Bool.not_eq_true', List.any_eq_false]

/-- The errors are the references that dangle, each with the location of its place. -/
theorem mem_errors_iff (i : Issue) :
    i ∈ g.report.withSeverity .error ↔
      ∃ place target, g.DanglesAt place target ∧ i = Issue.dangling (g.location place) target := by
  rw [withSeverity_error, g.walk_eq_visits, List.filterMap_map, List.mem_filterMap]
  simp only [Function.comp_apply, Option.map_eq_some_iff]
  constructor
  · intro h
    rcases h with ⟨v, hv, target, htarget, rfl⟩
    rcases Grammar.danglingTarget?_eq_some_iff.mp htarget with ⟨hp, hname⟩
    have hat := (g.mem_visits_iff v.1 v.2).mp hv
    rw [hp] at hat
    exact ⟨v.1, target, ⟨hat, hname⟩, rfl⟩
  · intro h
    rcases h with ⟨place, target, ⟨hat, hname⟩, rfl⟩
    exact ⟨(place, .reference target), (g.mem_visits_iff _ _).mpr hat, target,
      Grammar.danglingTarget?_eq_some_iff.mpr ⟨rfl, hname⟩, rfl⟩

end Report
end TextMate
