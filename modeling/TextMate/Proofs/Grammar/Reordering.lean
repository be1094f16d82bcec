import Mathlib.Data.List.Perm.Basic
import TextMate.Proofs.Grammar.Dangling
import TextMate.Proofs.Grammar.Unmark

/-!
# Grammars in another order

Patterns may be put in another order, at the top level, in the repository and
inside blocks at any depth.  This changes the order in which they are met and
their locations, but apart from the lists of inner patterns it is the same
patterns that are met, each as often as before.  The main result says that a
report then finds the same, if one looks away from where it is found.
-/

namespace TextMate

/-!
## Lists that agree but for their order
-/

/-- The members of two lists can be paired off, so that the members of each pair are related. -/
def Matched {α β : Type} (R : α → β → Prop) (xs : List α) (ys : List β) : Prop :=
  ∃ pairs : List (α × β), xs.Perm (pairs.map (·.1)) ∧ ys.Perm (pairs.map (·.2))
    ∧ ∀ e ∈ pairs, R e.1 e.2

namespace Matched

variable {α β γ : Type} {R : α → β → Prop} {xs : List α} {ys : List β}

theorem nil : Matched R [] [] :=
  ⟨[], .nil, .nil, nofun⟩

theorem perm_map (h : Matched R xs ys) {f : α → γ} {f' : β → γ}
    (hf : ∀ x y, R x y → f x = f' y) : (xs.map f).Perm (ys.map f') := by
  rcases h with ⟨pairs, hxs, hys, hR⟩
  have hpairs : (pairs.map (·.1)).map f = (pairs.map (·.2)).map f' := by
    rw [List.map_map, List.map_map]
    exact List.map_congr_left fun e he => hf e.1 e.2 (hR e he)
  exact (hxs.map f).trans (hpairs ▸ (hys.map f').symm)

theorem perm_flatMap (h : Matched R xs ys) {f : α → List γ} {f' : β → List γ}
    (hf : ∀ x y, R x y → (f x).Perm (f' y)) : (xs.flatMap f).Perm (ys.flatMap f') := by
  rcases h with ⟨pairs, hxs, hys, hR⟩
  have hpairs : ((pairs.map (·.1)).flatMap f).Perm ((pairs.map (·.2)).flatMap f') := by
    rw [List.flatMap_map, List.flatMap_map]
    exact List.Perm.flatMap_left pairs fun e he => hf e.1 e.2 (hR e he)
  exact (hxs.flatMap_right f).trans (hpairs.trans (hys.flatMap_right f').symm)

theorem of_rel {xs : Option (List α)} {ys : Option (List β)} (h : Option.Rel (Matched R) xs ys) :
    Matched R (xs.getD []) (ys.getD []) := by
  cases h with
  | none => exact nil
  | some h => exact h

end Matched

/-!
## Patterns and grammars in another order
-/

/-- The second pattern is the first one with the patterns inside it in another order. -/
inductive Pattern.Reordered : Pattern → Pattern → Prop where
  | same (p : Pattern) : Reordered p p
  | block (rule : BlockRule Capture) {ps qs : List Pattern} (pairs : List (Pattern × Pattern)) :
      ps.Perm (pairs.map (·.1)) -> qs.Perm (pairs.map (·.2)) ->
      (∀ e ∈ pairs, Reordered e.1 e.2) ->
      Reordered (.block rule (some ps)) (.block rule (some qs))

/-- The second grammar is the first one with its patterns and entries in another order. -/
structure Grammar.Reordered (g h : Grammar) : Prop where
  header : h.header = g.header
  patterns : Option.Rel (Matched Pattern.Reordered) g.patterns h.patterns
  repository :
    Option.Rel (Matched fun d e => d.1 = e.1 ∧ Pattern.Reordered d.2 e.2) g.repository h.repository

namespace Pattern

def shell : Pattern → Pattern
  | block rule _ => block rule none
  | p => p

def shells (p : Pattern) : List Pattern :=
  p.visits.map fun v => v.2.shell

theorem map_shell_visitsFrom (ps : List Pattern) (start : Nat) :
    (visitsFrom start ps).map (fun v => v.2.shell) = ps.flatMap shells := by
  induction ps generalizing start with
  | nil => rfl
  | cons p ps ih =>
      rw [visitsFrom_cons, List.map_append, ih, List.map_map, List.flatMap_cons]
      rfl

theorem shells_block (rule : BlockRule Capture) (ps : List Pattern) :
    (block rule (some ps)).shells = block rule none :: ps.flatMap shells := by
  rw [shells, visits_block, List.map_cons, map_shell_visitsFrom]
  rfl

theorem map_shell_walk (p : Pattern) (location : String) :
    (walk location p).map (fun node => node.2.shell) = p.shells := by
  rw [walk_eq_visits, List.map_map]
  rfl

theorem map_shell_walkFrom (ps : List Pattern) (base : String) (start : Nat) :
    (walkFrom base start ps).map (fun node => node.2.shell) = ps.flatMap shells := by
  induction ps generalizing start with
  | nil => rfl
  | cons p ps ih => rw [walkFrom, List.map_append, map_shell_walk, ih, List.flatMap_cons]

theorem Reordered.perm_shells {p q : Pattern} (h : Reordered p q) : p.shells.Perm q.shells := by
  induction h with
  | same p => exact List.Perm.refl _
  | block rule pairs hps hqs hpairs ih =>
      rw [shells_block, shells_block]
      have hmatched : Matched (fun p q : Pattern => p.shells.Perm q.shells) _ _ :=
        ⟨pairs, hps, hqs, ih⟩
      exact (hmatched.perm_flatMap fun _ _ hpq => hpq).cons _

end Pattern

namespace Grammar

def shells (g : Grammar) : List Pattern :=
  g.walk.map fun node => node.2.shell

theorem shells_eq (g : Grammar) :
    g.shells =
      g.topLevel.flatMap Pattern.shells ++ g.entries.flatMap fun e => e.2.shells := by
  rw [shells, walk, List.map_append, Pattern.map_shell_walkFrom, List.map_flatMap]
  simp only [Pattern.map_shell_walk]

theorem targets_eq_filterMap_shells (g : Grammar) :
    g.targets = g.shells.filterMap Pattern.target? := by
  rw [targets, nodes, shells, List.filterMap_map, List.filterMap_map]
  congr 1
  funext node
  cases hp : node.2 <;> simp [hp, Pattern.shell, Pattern.target?]

section Reordered

variable {g h : Grammar}

theorem Reordered.perm_shells (hgh : g.Reordered h) : g.shells.Perm h.shells := by
  rw [shells_eq, shells_eq]
  apply List.Perm.append
  · exact (Matched.of_rel hgh.patterns).perm_flatMap fun _ _ hpq => hpq.perm_shells
  · exact (Matched.of_rel hgh.repository).perm_flatMap fun _ _ hde => hde.2.perm_shells

theorem Reordered.perm_names (hgh : g.Reordered h) : g.names.Perm h.names :=
  (Matched.of_rel hgh.repository).perm_map fun _ _ hde => hde.1

theorem Reordered.perm_targets (hgh : g.Reordered h) : g.targets.Perm h.targets := by
  rw [targets_eq_filterMap_shells, targets_eq_filterMap_shells]
  exact hgh.perm_shells.filterMap _

end Reordered

end Grammar

/-!
## What is found
-/

/-- What an issue says apart from where it is. -/
def Issue.finding (i : Issue) : Severity × String × String × Option Value :=
  (i.severity, i.code, i.message, i.subject)

namespace Report

/-- What is found in a pattern itself depends neither on its location nor on the patterns inside. -/
theorem map_finding_ofPattern (defines : String → Bool) (location : String) (p : Pattern) :
    (ofPattern defines location p).map Issue.finding =
      (ofPattern defines "" p.shell).map Issue.finding := by
  have hkeys : ∀ (location : String) (names : List String),
      (ofCaptureKeys location names).map Issue.finding =
        (names.filter fun key => !Text.isDigits key).map
          fun key => (Issue.captureKey "" key).finding := by
    intro location names
    rw [ofCaptureKeys, List.map_map]
    rfl
  cases p with
  | reference target =>
      simp only [ofPattern, Pattern.shell, ofTarget]
      split
      · rfl
      · split
        · rfl
        · rfl
      · rfl
      · rfl
  | matching rule => simp only [ofPattern, Pattern.shell, hkeys]
  | block rule ps => simp only [ofPattern, Pattern.shell, List.map_append, hkeys]

theorem map_finding_report (g : Grammar) :
    g.report.issues.map Issue.finding =
      (ofScopeName g.header.scopeName).map Issue.finding
        ++ (g.shells.flatMap fun p => (ofPattern g.names.contains "" p).map Issue.finding)
        ++ (g.names.filter fun name =>
            !(g.targets.filterMap Include.entryName?).contains name).map
              fun name => (Issue.unusedEntry name (.text name)).finding := by
  have hwalk : (g.walk.flatMap fun node =>
        ofPattern g.names.contains node.1 node.2).map Issue.finding =
      g.shells.flatMap fun p => (ofPattern g.names.contains "" p).map Issue.finding := by
    rw [List.map_flatMap, Grammar.shells, List.flatMap_map]
    congr 1
    funext node
    exact map_finding_ofPattern _ _ _
  rw [Grammar.report]
  dsimp only
  rw [List.map_append, List.map_append, hwalk, List.map_map]
  rfl

theorem contains_eq_of_perm {xs ys : List String} (h : xs.Perm ys) : xs.contains = ys.contains := by
  funext name
  exact h.contains_eq

theorem perm_findings {g h : Grammar} (hgh : g.Reordered h) :
    (h.report.issues.map Issue.finding).Perm (g.report.issues.map Issue.finding) := by
  rw [map_finding_report, map_finding_report, hgh.header,
    contains_eq_of_perm hgh.perm_names,
    contains_eq_of_perm (hgh.perm_targets.filterMap Include.entryName?)]
  have hshells := hgh.perm_shells.symm.flatMap_right fun p =>
    (ofPattern h.names.contains "" p).map Issue.finding
  have hunused := hgh.perm_names.symm.filter fun name =>
    !(h.targets.filterMap Include.entryName?).contains name
  exact ((List.Perm.refl _).append hshells).append (hunused.map _)

/-- In another order of patterns and entries a report finds the same elsewhere, and the grammar can
be rendered if it could. -/
theorem findings_do_not_depend_on_order {g h : Grammar} (hgh : g.Reordered h) :
    (h.report.issues.map Issue.finding).Perm (g.report.issues.map Issue.finding)
      ∧ h.report.isValid = g.report.isValid
      ∧ ∀ format, (∃ r, h.render format = .ok r) ↔ ∃ r, g.render format = .ok r := by
  have hperm := perm_findings hgh
  have hany : ∀ r : Report, r.isValid =
      !(r.issues.map Issue.finding).any fun finding => finding.1 == .error := by
    intro r
    rw [List.any_map]
    rfl
  have hvalid : h.report.isValid = g.report.isValid := by
    rw [hany, hany, hperm.any_eq]
  refine ⟨hperm, hvalid, ?_⟩
  intro format
  rw [Grammar.exists_render_eq_ok_iff, Grammar.exists_render_eq_ok_iff,
    ← isValid_iff_dangling?_eq_none, ← isValid_iff_dangling?_eq_none, hvalid]

end Report

namespace Grammar

def upward : Grammar where
  header := ⟨none, none, "source", none, none, none, "", "", "u"⟩
  patterns := some [.reference "#a", .block ⟨none, "(", none, ")", none, none, none⟩
    (some [.reference "#gone", .reference ""])]
  repository := some [("a", .reference "!!x"), ("b", .matching ⟨none, "", some [("n", ⟨"k"⟩)]⟩)]

def downward : Grammar where
  header := ⟨none, none, "source", none, none, none, "", "", "u"⟩
  patterns := some [.block ⟨none, "(", none, ")", none, none, none⟩
    (some [.reference "", .reference "#gone"]), .reference "#a"]
  repository := some [("b", .matching ⟨none, "", some [("n", ⟨"k"⟩)]⟩), ("a", .reference "!!x")]

theorem upward_reordered : upward.Reordered downward where
  header := rfl
  patterns := by
    have hblock := Pattern.Reordered.block ⟨none, "(", none, ")", none, none, none⟩
      [(.reference "#gone", .reference "#gone"), (.reference "", .reference "")]
      (.refl _) (.swap _ _ _) (by simp [Pattern.Reordered.same])
    exact .some ⟨[(.reference "#a", .reference "#a"), (_, _)], .refl _, .swap _ _ _,
      List.forall_mem_cons.mpr ⟨.same _, List.forall_mem_singleton.mpr hblock⟩⟩
  repository :=
    .some ⟨[(("a", _), ("a", _)), (("b", _), ("b", _))], .refl _, .swap _ _ _,
      by simp [Pattern.Reordered.same]⟩

end Grammar

/-- The reports on these two grammars find the same five things. -/
theorem Report.downward_finds_the_same :
    Grammar.upward.Reordered Grammar.downward
      ∧ (Grammar.downward.report.issues.map Issue.finding).Perm
          (Grammar.upward.report.issues.map Issue.finding)
      ∧ Grammar.downward.report.issues.length = 5
      ∧ Grammar.downward.report.isValid = false := by
  have hreordered := Grammar.upward_reordered
  rcases findings_do_not_depend_on_order hreordered with ⟨hperm, hvalid, _⟩
  exact ⟨hreordered, hperm, by decide, hvalid.trans (by decide)⟩

end TextMate
