import TextMate.Proofs.Grammar.Findings
import TextMate.Proofs.Grammar.Unmark

/-!
# More entries

New entries go behind those of the repository, so what was walked through before
is walked through as before and comes first.  The main result says what this does
to the errors, if the new entries do not refer to entries themselves: exactly the
errors about references to the new names disappear, and nothing else changes.
-/

namespace TextMate

namespace Grammar

/-- The grammar with more entries behind those of its repository, which it then has in any case. -/
def withEntries (g : Grammar) (es : List (String × Pattern)) : Grammar :=
  { g with repository := some (g.entries ++ es) }

section WithEntries

variable (g : Grammar) (es : List (String × Pattern))

@[simp] theorem entries_withEntries : (g.withEntries es).entries = g.entries ++ es := rfl

@[simp] theorem names_withEntries :
    (g.withEntries es).names = g.names ++ es.map (·.1) := by
  rw [names, names, entries_withEntries, List.map_append]

theorem walk_withEntries :
    (g.withEntries es).walk =
      g.walk ++ es.flatMap fun e => e.2.walk ("repository/" ++ e.1) := by
  rw [walk, walk, entries_withEntries, List.flatMap_append, List.append_assoc]
  rfl

def isOutside (es : List (String × Pattern)) (asked : Option String) : Bool :=
  asked.all fun name => !(es.map (·.1)).contains name

theorem danglingTarget?_withEntries (p : Pattern) :
    (g.withEntries es).danglingTarget? p =
      (g.danglingTarget? p).filter fun target => isOutside es (Include.entryName? target) := by
  cases p with
  | matching rule => rfl
  | block rule ps => rfl
  | reference target =>
      rw [danglingTarget?, danglingTarget?, names_withEntries]
      cases hname : Include.entryName? target with
      | none => rfl
      | some name =>
          have houtside : isOutside es (Include.entryName? target) =
              !(es.map (·.1)).contains name := by
            rw [hname]
            rfl
          rw [Option.bind_some, Option.bind_some, List.contains_append]
          cases hdefined : g.names.contains name with
          | true => rfl
          | false =>
              rw [Bool.false_or, if_neg Bool.false_ne_true, Option.filter_some, houtside]
              cases (es.map (·.1)).contains name <;> rfl

theorem danglingTarget?_eq_none_of_mem_walk {p : Pattern} {location : String}
    (hfree : ∀ path name, p.at? path ≠ some (.reference ("#" ++ name)))
    {node : String × Pattern} (hnode : node ∈ p.walk location) :
    g.danglingTarget? node.2 = none := by
  rw [p.walk_eq_visits] at hnode
  rcases List.mem_map.mp hnode with ⟨⟨path, q⟩, hvisit, rfl⟩
  have hat := (p.mem_visits_iff path q).mp hvisit
  rw [Option.eq_none_iff_forall_ne_some]
  intro target htarget
  rcases danglingTarget?_eq_some_iff.mp htarget with ⟨hq, name, hname, _⟩
  dsimp only at hq
  rw [hq, hname] at hat
  exact hfree path name hat

end WithEntries

end Grammar

namespace Report

open Grammar

theorem withSeverity_error_withEntries {g : Grammar} {es : List (String × Pattern)}
    (hfree : ∀ e ∈ es, ∀ path name, e.2.at? path ≠ some (.reference ("#" ++ name))) :
    (g.withEntries es).report.withSeverity .error =
      (g.report.withSeverity .error).filter fun i => isOutside es i.entryName? := by
  have hnew : (es.flatMap fun e => e.2.walk ("repository/" ++ e.1)).filterMap
      (fun node => ((g.withEntries es).danglingTarget? node.2).map (Issue.dangling node.1)) =
        [] := by
    rw [List.filterMap_eq_nil_iff]
    intro node hnode
    rcases List.mem_flatMap.mp hnode with ⟨e, he, hnode⟩
    rw [danglingTarget?_eq_none_of_mem_walk _ (hfree e he) hnode]
    rfl
  rw [withSeverity_error, withSeverity_error, walk_withEntries, List.filterMap_append, hnew,
    List.append_nil, List.filter_filterMap]
  congr 1
  funext node
  rw [danglingTarget?_withEntries, Option.filter_map]
  rfl

theorem exists_entryName?_of_mem_errors {g : Grammar} {i : Issue}
    (hi : i ∈ g.report.withSeverity .error) :
    ∃ place name, g.DanglesAt place ("#" ++ name) ∧ i.entryName? = some name := by
  rcases (mem_errors_iff g i).mp hi with ⟨place, target, hdangles, rfl⟩
  have hdangles' := hdangles
  rcases hdangles with ⟨_, name, rfl, _⟩
  exact ⟨place, name, hdangles', Include.entryName?_entry name⟩

/-- New entries that refer to no entries repair exactly the references to them: the errors about
other names stay as they are, in their order, and there are no new ones. -/
theorem new_entries_repair_references_to_them {g : Grammar} {es : List (String × Pattern)}
    (hfree : ∀ e ∈ es, ∀ path name, e.2.at? path ≠ some (.reference ("#" ++ name))) :
    (g.withEntries es).report.withSeverity .error =
        (g.report.withSeverity .error).filter
          (fun i => i.entryName?.all fun name => !(es.map (·.1)).contains name)
      ∧ (∀ i ∈ g.report.withSeverity .error, ∃ name, i.entryName? = some name)
      ∧ ((g.withEntries es).report.isValid = true ↔
          ∀ place name, g.DanglesAt place ("#" ++ name) → name ∈ es.map (·.1)) := by
  have herrors := withSeverity_error_withEntries (g := g) hfree
  refine ⟨herrors, ?_, ?_⟩
  · intro i hi
    rcases exists_entryName?_of_mem_errors hi with ⟨_, name, _, hname⟩
    exact ⟨name, hname⟩
  · rw [isValid_iff_withSeverity_error_eq_nil, herrors, List.filter_eq_nil_iff]
    constructor
    · intro hnone place name hdangles
      have hi := (mem_errors_iff g _).mpr ⟨place, _, hdangles, rfl⟩
      have hinside := hnone _ hi
      rw [Issue.entryName?_dangling, Include.entryName?_entry] at hinside
      simpa [isOutside] using hinside
    · intro hdefined i hi
      rcases exists_entryName?_of_mem_errors hi with ⟨place, name, hdangles, hname⟩
      have hmem := hdefined place name hdangles
      rw [hname]
      simpa [isOutside] using hmem

end Report

theorem Pattern.at?_ne_of_targets {p : Pattern}
    (h : ∀ target ∈ p.targets, Include.entryName? target = none) (path : List Nat)
    (name : String) : p.at? path ≠ some (.reference ("#" ++ name)) := by
  intro hat
  have hvisit := (p.mem_visits_iff path _).mpr hat
  have htarget : "#" ++ name ∈ p.targets := List.mem_filterMap.mpr ⟨_, hvisit, rfl⟩
  have hnone := h _ htarget
  rw [Include.entryName?_entry] at hnone
  cases hnone

def Grammar.gappy : Grammar where
  header := ⟨none, none, "source.x", none, none, none, "", "", "u"⟩
  patterns := some [.reference "#first", .block ⟨none, "(", none, ")", none, none, none⟩
    (some [.reference "#second", .reference "#first"])]
  repository := none

def Grammar.patch : List (String × Pattern) :=
  [("first", .block ⟨none, "(", none, ")", none, none, none⟩
    (some [.reference "!#second", .reference "$self"]))]

/-- With that entry one error is left, where it was. -/
theorem Report.gappy_patched_keeps_error :
    (Grammar.gappy.withEntries Grammar.patch).report.withSeverity .error =
        [Issue.dangling "patterns/1/patterns/0" "#second"]
      ∧ (Grammar.gappy.withEntries Grammar.patch).report.isValid = false := by
  have htargets : ∀ e ∈ Grammar.patch, ∀ target ∈ e.2.targets,
      Include.entryName? target = none := by decide
  have hfree : ∀ e ∈ Grammar.patch, ∀ path name,
      e.2.at? path ≠ some (.reference ("#" ++ name)) :=
    fun e he => Pattern.at?_ne_of_targets (htargets e he)
  rcases new_entries_repair_references_to_them (g := Grammar.gappy) hfree with ⟨herrors, _, hvalid⟩
  have hsecond : Grammar.gappy.DanglesAt (.topLevel 1 [0]) ("#" ++ "second") :=
    ⟨rfl, "second", rfl, by decide⟩
  constructor
  · rw [herrors]
    rfl
  · rw [← Bool.not_eq_true, hvalid]
    intro hdefined
    have hmem := hdefined _ _ hsecond
    revert hmem
    decide

end TextMate
