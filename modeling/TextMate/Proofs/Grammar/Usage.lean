import Mathlib.Data.List.Nodup
import TextMate.Proofs.Grammar.Findings
import TextMate.Proofs.Grammar.Rerendering

/-!
# Entries that are asked for

A name is asked for if a reference to the entry of this name stands anywhere in
the grammar, be it in that entry itself.  The main result says that a report
divides these names: the entries that are not asked for are the information it
gives, and the names asked for that have no entry are those its errors are about.
-/

namespace TextMate

namespace Grammar

def AsksFor (g : Grammar) (name : String) : Prop :=
  ∃ place, g.at? place = some (.reference ("#" ++ name))

theorem asksFor_iff_mem_targets (g : Grammar) (name : String) :
    g.AsksFor name ↔ name ∈ g.targets.filterMap Include.entryName? := by
  rw [targets_eq_filterMap_visits, List.filterMap_filterMap, List.mem_filterMap]
  constructor
  · intro h
    rcases h with ⟨place, hat⟩
    have hvisit := (g.mem_visits_iff place _).mpr hat
    exact ⟨_, hvisit, Include.entryName?_entry name⟩
  · intro h
    rcases h with ⟨⟨place, p⟩, hvisit, hname⟩
    rcases Option.bind_eq_some_iff.mp hname with ⟨target, htarget, hentry⟩
    cases p with
    | reference other =>
        cases htarget
        rw [Include.entryName?_eq_some_iff] at hentry
        rw [hentry] at hvisit
        exact ⟨place, (g.mem_visits_iff _ _).mp hvisit⟩
    | matching rule => cases htarget
    | block rule ps => cases htarget

instance (g : Grammar) (name : String) : Decidable (g.AsksFor name) :=
  decidable_of_iff _ (g.asksFor_iff_mem_targets name).symm

end Grammar

namespace Report

/-- An error of the report is about a reference to a missing entry of this name. -/
def TellsDangling (r : Report) (name : String) : Prop :=
  ∃ i ∈ r.withSeverity .error, i.code = Issue.danglingCode ∧ i.entryName? = some name

/-- The report gives the information that nothing refers to the entry of this name. -/
def TellsUnused (r : Report) (name : String) : Prop :=
  ∃ i ∈ r.withSeverity .info,
    i.code = "UNUSED_REPOSITORY_ENTRY" ∧ i.subject = some (.text name)

variable (g : Grammar)

theorem withSeverity_info_eq_filter_asksFor :
    g.report.withSeverity .info =
      (g.names.filter fun name => ¬ g.AsksFor name).map
        fun name => Issue.unusedEntry name (.text name) := by
  rw [withSeverity_info]
  congr 2
  funext name
  rw [Bool.eq_iff_iff, Bool.not_eq_true', decide_eq_true_iff, g.asksFor_iff_mem_targets,
    ← Bool.not_eq_true, List.contains_iff_mem]

theorem tellsUnused_iff (name : String) :
    g.report.TellsUnused name ↔ name ∈ g.names ∧ ¬ g.AsksFor name := by
  rw [TellsUnused, withSeverity_info_eq_filter_asksFor]
  constructor
  · intro h
    rcases h with ⟨i, hi, _, hsubject⟩
    rcases List.mem_map.mp hi with ⟨other, hother, rfl⟩
    cases hsubject
    simpa using hother
  · intro h
    exact ⟨_, List.mem_map_of_mem (by simpa using h), rfl, rfl⟩

theorem tellsDangling_iff (name : String) :
    g.report.TellsDangling name ↔ g.AsksFor name ∧ name ∉ g.names := by
  constructor
  · intro h
    rcases h with ⟨i, hi, _, hname⟩
    rcases (mem_errors_iff g i).mp hi with ⟨place, target, ⟨hat, other, rfl, hmissing⟩, rfl⟩
    rw [Issue.entryName?_dangling, Include.entryName?_eq_some_iff, String.append_right_inj] at hname
    rw [hname] at hat hmissing
    exact ⟨⟨place, hat⟩, hmissing⟩
  · intro h
    rcases h with ⟨⟨place, hat⟩, hmissing⟩
    have herror := (mem_errors_iff g _).mpr ⟨place, _, ⟨hat, name, rfl, hmissing⟩, rfl⟩
    exact ⟨_, herror, rfl, Include.entryName?_entry name⟩

theorem nodup_locations_info (hnames : g.names.Nodup) :
    ((g.report.withSeverity .info).map Issue.location).Nodup := by
  rw [withSeverity_info, List.map_map]
  apply List.Nodup.map _ (hnames.filter _)
  intro a b heq
  exact (String.append_right_inj _).mp (Option.some.inj heq)

/-- Of the names that are asked for, a report tells those that are missing, and of the entries those
that are not asked for, each once and in order. -/
theorem names_asked_for_are_used_or_dangling {g : Grammar} (hread : g.IsRead) :
    g.report.withSeverity .info =
        (g.names.filter fun name => ¬ g.AsksFor name).map
          (fun name => Issue.unusedEntry name (.text name))
      ∧ ((g.report.withSeverity .info).map Issue.location).Nodup
      ∧ (∀ name, g.report.TellsDangling name ↔ g.AsksFor name ∧ name ∉ g.names)
      ∧ ∀ name, g.AsksFor name →
        ((name ∈ g.names ∧ ¬ g.report.TellsUnused name) ∨ g.report.TellsDangling name)
          ∧ ¬ ((name ∈ g.names ∧ ¬ g.report.TellsUnused name) ∧ g.report.TellsDangling name) := by
  refine ⟨withSeverity_info_eq_filter_asksFor g, nodup_locations_info g hread.wellFormed.names,
    tellsDangling_iff g, ?_⟩
  intro name hasked
  rw [tellsUnused_iff, tellsDangling_iff]
  constructor
  · by_cases hname : name ∈ g.names
    · exact Or.inl ⟨hname, fun hunused => hunused.2 hasked⟩
    · exact Or.inr ⟨hasked, hname⟩
  · intro hboth
    exact hboth.2.2 hboth.1.1

end Report

def Grammar.entangled : Grammar where
  header := ⟨none, none, "source.x", none, none, none, "", "", "u"⟩
  patterns := some [.reference "#", .reference "!#spare", .reference "#gone"]
  repository := some [("spare", .reference "$self"), ("", .matching ⟨none, "a", none⟩),
    ("loop", .block ⟨none, "(", none, ")", none, none, none⟩ (some [.reference "#loop"]))]

/-- Of such a grammar one entry is told unused and one name dangling. -/
theorem Report.entangled_tells :
    Grammar.entangled.IsRead
      ∧ Grammar.entangled.report.withSeverity .info = [Issue.unusedEntry "spare" (.text "spare")]
      ∧ Grammar.entangled.report.TellsDangling "gone" := by
  have hwell : Grammar.entangled.WellFormed := by decide
  have hread := hwell.isRead rfl
  rcases names_asked_for_are_used_or_dangling hread with ⟨hinfo, _, hdangling, _⟩
  have hunused : (Grammar.entangled.names.filter fun name => ¬ Grammar.entangled.AsksFor name) =
      ["spare"] := by decide
  have hgone : Grammar.entangled.AsksFor "gone" ∧ "gone" ∉ Grammar.entangled.names := by decide
  rw [hunused] at hinfo
  exact ⟨hread, hinfo, (hdangling "gone").mpr hgone⟩

end TextMate
