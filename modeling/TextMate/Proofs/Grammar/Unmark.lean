import Mathlib.Data.List.Forall2
import TextMate.Proofs.Grammar.Transformation

/-!
# Taking marks away

The transformation of a grammar that takes one mark from every reference to
another grammar changes the targets of references and leaves everything else as
it is.  So the patterns of the transformed grammar stand at the same places, and
its targets are those of the grammar, each without one mark.  The main result says
all that happens at a place.
-/

namespace TextMate

namespace Pattern

/-- The pattern with one mark taken from every target in it. -/
def unmarked (p : Pattern) : Pattern :=
  Id.run (p.mapM fun q => pure q.unmarkTarget)

@[simp] theorem unmarked_matching (rule : MatchRule Capture) :
    (matching rule).unmarked = matching rule := rfl

@[simp] theorem unmarked_reference (target : String) :
    (reference target).unmarked = reference (Include.unmark target) := rfl

@[simp] theorem unmarked_absent (rule : BlockRule Capture) :
    (block rule none).unmarked = block rule none := rfl

@[simp] theorem unmarked_block (rule : BlockRule Capture) (ps : List Pattern) :
    (block rule (some ps)).unmarked = block rule (some (ps.map unmarked)) :=
  mapped_block unmarkTarget rule ps

theorem visits_unmarked (p : Pattern) :
    p.unmarked.visits = p.visits.map fun v => (v.1, v.2.unmarked) :=
  visits_mapped changesReferencesOnly_unmarkTarget p

def target? : Pattern → Option String
  | reference target => some target
  | _ => none

theorem target?_unmarked (p : Pattern) : p.unmarked.target? = p.target?.map Include.unmark := by
  induction p using inductionOn with
  | matching rule => rfl
  | reference target => rfl
  | absent rule => rfl
  | block rule ps ih =>
      rw [unmarked_block]
      rfl

def targets (p : Pattern) : List String :=
  p.visits.filterMap fun v => v.2.target?

@[simp] theorem targets_matching (rule : MatchRule Capture) : (matching rule).targets = [] := rfl

@[simp] theorem targets_reference (target : String) :
    (reference target).targets = [target] := rfl

@[simp] theorem targets_absent (rule : BlockRule Capture) :
    (block rule none).targets = [] := rfl

theorem filterMap_target?_visitsFrom (ps : List Pattern) (start : Nat) :
    (visitsFrom start ps).filterMap (fun v => v.2.target?) = ps.flatMap targets := by
  induction ps generalizing start with
  | nil => rfl
  | cons p ps ih =>
      rw [visitsFrom_cons, List.filterMap_append, ih, List.flatMap_cons, List.filterMap_map]
      rfl

@[simp] theorem targets_block (rule : BlockRule Capture) (ps : List Pattern) :
    (block rule (some ps)).targets = ps.flatMap targets := by
  rw [targets, visits_block]
  exact filterMap_target?_visitsFrom ps 0

theorem targets_unmarked (p : Pattern) : p.unmarked.targets = p.targets.map Include.unmark := by
  rw [targets, visits_unmarked, List.filterMap_map, targets, List.map_filterMap]
  congr 1
  funext v
  exact target?_unmarked v.2

end Pattern

namespace Grammar

/-- Taking marks away transforms the patterns where they stand; absent lists stay absent. -/
theorem unmarkIncludes_eq (g : Grammar) :
    g.unmarkIncludes =
      { header := g.header
        patterns := g.patterns.map fun ps => ps.map Pattern.unmarked
        repository := g.repository.map fun es => es.map fun e => (e.1, e.2.unmarked) } :=
  map_eq Pattern.unmarkTarget g

@[simp] theorem header_unmarkIncludes (g : Grammar) : g.unmarkIncludes.header = g.header :=
  header_map _ g

@[simp] theorem topLevel_unmarkIncludes (g : Grammar) :
    g.unmarkIncludes.topLevel = g.topLevel.map Pattern.unmarked :=
  topLevel_map _ g

@[simp] theorem entries_unmarkIncludes (g : Grammar) :
    g.unmarkIncludes.entries = g.entries.map fun e => (e.1, e.2.unmarked) :=
  entries_map _ g

@[simp] theorem names_unmarkIncludes (g : Grammar) : g.unmarkIncludes.names = g.names :=
  names_map _ g

theorem targets_eq_filterMap_walk (g : Grammar) :
    g.targets = g.walk.filterMap fun n => n.2.target? := by
  rw [targets, nodes, List.filterMap_map]
  congr 1

theorem targets_eq_filterMap_visits (g : Grammar) :
    g.targets = g.visits.filterMap fun v => v.2.target? := by
  rw [targets_eq_filterMap_walk, g.walk_eq_visits, List.filterMap_map]
  congr 1

theorem filterMap_target?_visitsOf (place : Nat → List Nat → Place) (ps : List Pattern) :
    (visitsOf place ps).filterMap (fun v => v.2.target?) = ps.flatMap Pattern.targets := by
  have hfrom : ∀ start : Nat,
      ((ps.zipIdx start).flatMap fun p => p.1.visits.map fun v => (place p.2 v.1, v.2)).filterMap
          (fun v => v.2.target?) = ps.flatMap Pattern.targets := by
    induction ps with
    | nil =>
        intro start
        rfl
    | cons p ps ih =>
        intro start
        rw [List.zipIdx_cons, List.flatMap_cons, List.filterMap_append, ih, List.flatMap_cons,
          List.filterMap_map]
        rfl
  exact hfrom 0

/-- The targets of a grammar are those of its top-level patterns and then of its entries. -/
theorem targets_eq (g : Grammar) :
    g.targets = g.topLevel.flatMap Pattern.targets
      ++ g.entries.flatMap fun e => e.2.targets := by
  rw [targets_eq_filterMap_visits, visits, List.filterMap_append, filterMap_target?_visitsOf,
    filterMap_target?_visitsOf, List.flatMap_map]

theorem targets_unmarkIncludes (g : Grammar) :
    g.unmarkIncludes.targets = g.targets.map Include.unmark := by
  have hp : ∀ p : Pattern, p.unmarked.targets = p.targets.map Include.unmark :=
    Pattern.targets_unmarked
  rw [targets_eq, targets_eq, topLevel_unmarkIncludes, entries_unmarkIncludes, List.map_append,
    List.map_flatMap, List.map_flatMap, List.flatMap_map, List.flatMap_map]
  simp only [hp]

/-!
## What stays as it is
-/

theorem visits_unmarkIncludes (g : Grammar) :
    g.unmarkIncludes.visits = g.visits.map fun v => (v.1, v.2.unmarked) :=
  visits_map Pattern.changesReferencesOnly_unmarkTarget g

theorem walk_unmarkIncludes (g : Grammar) :
    g.unmarkIncludes.walk = g.walk.map fun v => (v.1, v.2.unmarked) :=
  walk_map Pattern.changesReferencesOnly_unmarkTarget g

/-- What stands at a place of the transformed grammar is what stood there, transformed. -/
theorem at?_unmarkIncludes (g : Grammar) (place : Place) :
    g.unmarkIncludes.at? place = (g.at? place).map Pattern.unmarked :=
  at?_map Pattern.changesReferencesOnly_unmarkTarget g place

end Grammar

/-- What may become of a pattern: a reference loses the mark in front of its target, if it has
one, and a block has as many inner patterns as before.  Nothing else changes. -/
inductive Pattern.LosesMark : Pattern → Pattern → Prop where
  | matching (rule : MatchRule Capture) : LosesMark (.matching rule) (.matching rule)
  | marked (rest : String) : LosesMark (.reference ("!" ++ rest)) (.reference rest)
  | unmarked {target : String} :
      (∀ rest, target ≠ "!" ++ rest) -> LosesMark (.reference target) (.reference target)
  | absent (rule : BlockRule Capture) : LosesMark (.block rule none) (.block rule none)
  | block (rule : BlockRule Capture) {ps qs : List Pattern} :
      qs.length = ps.length -> LosesMark (.block rule (some ps)) (.block rule (some qs))

theorem Pattern.losesMark_unmarked (p : Pattern) : p.LosesMark p.unmarked := by
  cases p with
  | matching rule => exact .matching rule
  | reference target =>
      rw [unmarked_reference]
      by_cases h : ∃ rest, target = "!" ++ rest
      · rcases h with ⟨rest, rfl⟩
        rw [Include.unmark_mark]
        exact .marked rest
      · have hrest : ∀ rest, target ≠ "!" ++ rest := fun rest heq => h ⟨rest, heq⟩
        have hself : Include.unmark target = target := by
          rcases Include.eq_or_eq_mark_of_unmark (Eq.refl (Include.unmark target)) with heq | heq
          · exact heq.symm
          · exact absurd heq (hrest _)
        rw [hself]
        exact .unmarked hrest
  | block rule patterns =>
      cases patterns with
      | none => exact .absent rule
      | some ps =>
          rw [unmarked_block]
          exact .block rule (List.length_map _)

namespace Grammar

/-- Taking marks away changes marked targets and nothing else: the same places and locations
have patterns of the same forms in the same order, a reference at most loses one mark, all
other fields stay, and lists of patterns and the repository stay absent or keep their size and
names. -/
theorem unmarking_changes_marked_targets_only (g : Grammar) :
    List.Forall₂ (fun v w => w.1 = v.1 ∧ v.2.LosesMark w.2) g.walk g.unmarkIncludes.walk
      ∧ (∀ place, Option.Rel Pattern.LosesMark (g.at? place) (g.unmarkIncludes.at? place))
      ∧ g.unmarkIncludes.header = g.header
      ∧ g.unmarkIncludes.patterns.map List.length = g.patterns.map List.length
      ∧ (g.unmarkIncludes.repository.map fun es => es.map (·.1)) =
          g.repository.map fun es => es.map (·.1) := by
  refine ⟨?_, ?_, g.header_unmarkIncludes, ?_, ?_⟩
  · rw [walk_unmarkIncludes, List.forall₂_map_right_iff, List.forall₂_same]
    intro v _
    exact ⟨rfl, v.2.losesMark_unmarked⟩
  · intro place
    rw [at?_unmarkIncludes]
    cases g.at? place with
    | none => exact .none
    | some p => exact .some p.losesMark_unmarked
  · rw [unmarkIncludes_eq, Option.map_map]
    congr 1
    funext ps
    exact List.length_map _
  · rw [unmarkIncludes_eq, Option.map_map]
    congr 1
    funext es
    simp [Function.comp_def]

end Grammar
end TextMate
