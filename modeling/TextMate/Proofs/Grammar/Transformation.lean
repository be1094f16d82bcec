import Mathlib.Data.List.Perm.Basic
import TextMate.Proofs.Grammar.Place

/-!
# Transformations

A transformation is applied to every pattern of a grammar, to the inner patterns
of a block before the block.  The walk meets the patterns in the order in which
it comes to them; a transformation meets them in the order in which the walk
leaves them.  A transformation that changes nothing but what references refer to
leaves all patterns at their places.  The main result says that a transformation
is called in the order of leaving, once for each pattern, and that two
transformations of which the first changes references only come to one.
-/

namespace TextMate

namespace Pattern

variable {f : Pattern → Pattern}

/-!
## The order of leaving
-/

mutual

def returns : Pattern → List (List Nat × Pattern)
  | block rule (some ps) => returnsFrom 0 ps ++ [([], block rule (some ps))]
  | p => [([], p)]

def returnsFrom : Nat → List Pattern → List (List Nat × Pattern)
  | _, [] => []
  | i, p :: ps => p.returns.map (fun v => (i :: v.1, v.2)) ++ returnsFrom (i + 1) ps

end

theorem returns_block (rule : BlockRule Capture) (ps : List Pattern) :
    (block rule (some ps)).returns = returnsFrom 0 ps ++ [([], block rule (some ps))] := rfl

theorem returnsFrom_cons (i : Nat) (p : Pattern) (ps : List Pattern) :
    returnsFrom i (p :: ps) =
      p.returns.map (fun v => (i :: v.1, v.2)) ++ returnsFrom (i + 1) ps := rfl

theorem perm_returnsFrom {ps : List Pattern} (hps : ∀ p ∈ ps, p.returns.Perm p.visits)
    (start : Nat) : (returnsFrom start ps).Perm (visitsFrom start ps) := by
  induction ps generalizing start with
  | nil => exact List.Perm.refl _
  | cons p ps ih =>
      rw [returnsFrom_cons, visitsFrom_cons]
      apply List.Perm.append
      · exact (hps p List.mem_cons_self).map _
      · exact ih (fun q hq => hps q (List.mem_cons_of_mem p hq)) (start + 1)

theorem perm_returns (p : Pattern) : p.returns.Perm p.visits := by
  induction p using inductionOn with
  | matching rule => exact List.Perm.refl _
  | reference target => exact List.Perm.refl _
  | absent rule => exact List.Perm.refl _
  | block rule ps ih =>
      rw [returns_block, visits_block]
      exact (List.perm_append_singleton _ _).trans ((perm_returnsFrom ih 0).cons _)

theorem exists_path_of_mem_returnsFrom {start : Nat} {ps : List Pattern}
    {v : List Nat × Pattern} (hv : v ∈ returnsFrom start ps) :
    ∃ i rest, v.1 = (start + i) :: rest := by
  have hmem : v ∈ visitsFrom start ps :=
    (perm_returnsFrom (fun p _ => perm_returns p) start).mem_iff.mp hv
  rcases mem_visitsFrom_iff.mp hmem with ⟨i, rest, p, hpath, _, _⟩
  exact ⟨i, rest, hpath⟩

theorem pairwise_returnsFrom {ps : List Pattern}
    (hps : ∀ p ∈ ps, p.returns.Pairwise fun v w => ¬ v.1 <+: w.1) (start : Nat) :
    (returnsFrom start ps).Pairwise fun v w => ¬ v.1 <+: w.1 := by
  induction ps generalizing start with
  | nil => exact List.Pairwise.nil
  | cons p ps ih =>
      rw [returnsFrom_cons, List.pairwise_append, List.pairwise_map]
      constructor
      · apply (hps p List.mem_cons_self).imp
        intro v w hvw hprefix
        exact hvw (List.cons_prefix_cons.mp hprefix).2
      · constructor
        · exact ih (fun q hq => hps q (List.mem_cons_of_mem p hq)) (start + 1)
        · intro v hv w hw hprefix
          rcases List.mem_map.mp hv with ⟨u, _, rfl⟩
          rcases exists_path_of_mem_returnsFrom hw with ⟨i, rest, hpath⟩
          rw [hpath] at hprefix
          have hstart := (List.cons_prefix_cons.mp hprefix).1
          omega

theorem pairwise_returns (p : Pattern) : p.returns.Pairwise fun v w => ¬ v.1 <+: w.1 := by
  induction p using inductionOn with
  | matching rule => exact List.pairwise_singleton _ _
  | reference target => exact List.pairwise_singleton _ _
  | absent rule => exact List.pairwise_singleton _ _
  | block rule ps ih =>
      rw [returns_block, List.pairwise_append]
      constructor
      · exact pairwise_returnsFrom ih 0
      · constructor
        · exact List.pairwise_singleton _ _
        · -- the block comes last, at the empty path, which goes on from no other
          intro v hv w hw hprefix
          rcases exists_path_of_mem_returnsFrom hv with ⟨i, rest, hpath⟩
          rw [List.mem_singleton.mp hw, hpath] at hprefix
          exact absurd (List.prefix_nil.mp hprefix) (List.cons_ne_nil _ _)

def postorder (p : Pattern) : List Pattern :=
  p.returns.map (·.2)

theorem map_snd_returnsFrom (start : Nat) (ps : List Pattern) :
    (returnsFrom start ps).map (·.2) = ps.flatMap postorder := by
  induction ps generalizing start with
  | nil => rfl
  | cons p ps ih =>
      rw [returnsFrom_cons, List.map_append, ih, List.map_map, List.flatMap_cons]
      rfl

theorem postorder_block (rule : BlockRule Capture) (ps : List Pattern) :
    (block rule (some ps)).postorder = ps.flatMap postorder ++ [block rule (some ps)] := by
  rw [postorder, returns_block, List.map_append, map_snd_returnsFrom]
  rfl

/-!
## What becomes of a pattern
-/

/-- The pattern after a transformation of it and of all patterns in it. -/
def mapped (f : Pattern → Pattern) (p : Pattern) : Pattern :=
  Id.run (p.mapM fun q => pure (f q))

theorem mapListM_pure (f : Pattern → Pattern) (ps : List Pattern) :
    Id.run (mapListM (fun q => pure (f q)) ps) = ps.map (mapped f) := by
  induction ps with
  | nil => rfl
  | cons p ps ih =>
      rw [List.map_cons, ← ih]
      rfl

@[simp] theorem mapped_matching (f : Pattern → Pattern) (rule : MatchRule Capture) :
    (matching rule).mapped f = f (matching rule) := rfl

@[simp] theorem mapped_reference (f : Pattern → Pattern) (target : String) :
    (reference target).mapped f = f (reference target) := rfl

@[simp] theorem mapped_absent (f : Pattern → Pattern) (rule : BlockRule Capture) :
    (block rule none).mapped f = f (block rule none) := rfl

@[simp] theorem mapped_block (f : Pattern → Pattern) (rule : BlockRule Capture)
    (ps : List Pattern) :
    (block rule (some ps)).mapped f = f (block rule (some (ps.map (mapped f)))) := by
  rw [← mapListM_pure]
  rfl

@[simp] theorem mapped_id (p : Pattern) : p.mapped id = p := by
  induction p using inductionOn with
  | matching rule => rfl
  | reference target => rfl
  | absent rule => rfl
  | block rule ps ih =>
      have hinner : ps.map (mapped id) = ps := (List.map_congr_left ih).trans (List.map_id' ps)
      rw [mapped_block, hinner]
      rfl

/-- The transformation changes nothing but what references refer to. -/
structure ChangesReferencesOnly (f : Pattern → Pattern) : Prop where
  matching : ∀ rule, f (matching rule) = matching rule
  block : ∀ rule ps, f (block rule ps) = block rule ps
  reference : ∀ target, ∃ other, f (reference target) = reference other

theorem changesReferencesOnly_unmarkTarget : ChangesReferencesOnly unmarkTarget where
  matching _ := rfl
  block _ _ := rfl
  reference target := ⟨Include.unmark target, rfl⟩

/-- Two transformations one after the other come to one, if the first changes references only. -/
theorem mapped_mapped (hf : ChangesReferencesOnly f) (h : Pattern → Pattern) (p : Pattern) :
    (p.mapped f).mapped h = p.mapped (h ∘ f) := by
  induction p using inductionOn with
  | matching rule =>
      rw [mapped_matching, mapped_matching, Function.comp_apply, hf.matching, mapped_matching]
  | reference target =>
      rcases hf.reference target with ⟨other, hother⟩
      rw [mapped_reference, mapped_reference, Function.comp_apply, hother, mapped_reference]
  | absent rule =>
      rw [mapped_absent, mapped_absent, Function.comp_apply, hf.block, mapped_absent]
  | block rule ps ih =>
      -- the second one is given the block around inner patterns that the first has transformed
      have hinner : (ps.map (mapped f)).map (mapped h) = ps.map (mapped (h ∘ f)) := by
        rw [List.map_map]
        exact List.map_congr_left ih
      rw [mapped_block, mapped_block, Function.comp_apply, hf.block, hf.block, mapped_block,
        hinner]

theorem visitsFrom_map_mapped {ps : List Pattern}
    (hps : ∀ p ∈ ps, (p.mapped f).visits = p.visits.map fun v => (v.1, v.2.mapped f))
    (start : Nat) :
    visitsFrom start (ps.map (mapped f)) =
      (visitsFrom start ps).map fun v => (v.1, v.2.mapped f) := by
  induction ps generalizing start with
  | nil => rfl
  | cons p ps ih =>
      rw [List.map_cons, visitsFrom_cons, visitsFrom_cons, List.map_append,
        hps p List.mem_cons_self, ih fun q hq => hps q (List.mem_cons_of_mem p hq),
        List.map_map, List.map_map]
      rfl

theorem visits_mapped (hf : ChangesReferencesOnly f) (p : Pattern) :
    (p.mapped f).visits = p.visits.map fun v => (v.1, v.2.mapped f) := by
  induction p using inductionOn with
  | matching rule => simp [visits, hf.matching]
  | reference target =>
      rcases hf.reference target with ⟨other, hother⟩
      simp [visits, hother]
  | absent rule => simp [visits, hf.block]
  | block rule ps ih =>
      rw [mapped_block, hf.block, visits_block, visits_block, visitsFrom_map_mapped ih,
        List.map_cons, mapped_block, hf.block]

/-!
## Calls
-/

section Calls

variable {m : Type → Type} [Monad m] [LawfulMonad m] {look : Pattern → m Unit}

/-- What a transformation is given for a pattern: its inner patterns are transformed already. -/
def withInner (f : Pattern → Pattern) : Pattern → Pattern
  | block rule (some ps) => block rule (some (ps.map (mapped f)))
  | p => p

theorem withInner_id (p : Pattern) : p.withInner id = p := by
  cases p with
  | matching rule => rfl
  | reference target => rfl
  | block rule ps =>
      cases ps with
      | none => rfl
      | some ps => rw [withInner, List.map_id'' fun q => mapped_id q]

theorem mapListM_look {ps : List Pattern}
    (hps : ∀ p ∈ ps, (p.mapM fun q => do look q; return f q) = do
      p.postorder.forM fun q => look (q.withInner f)
      return p.mapped f) :
    (mapListM (fun q => do look q; return f q) ps) = do
      (ps.flatMap postorder).forM fun q => look (q.withInner f)
      return ps.map (mapped f) := by
  induction ps with
  | nil => simp [mapListM]
  | cons p ps ih =>
      rw [mapListM, hps p List.mem_cons_self, ih fun q hq => hps q (List.mem_cons_of_mem p hq)]
      simp

/-- A transformation that looks at the patterns it is given looks at each once, inner ones
first. -/
theorem mapM_look (f : Pattern → Pattern) (look : Pattern → m Unit) (p : Pattern) :
    (p.mapM fun q => do look q; return f q) = do
      p.postorder.forM fun q => look (q.withInner f)
      return p.mapped f := by
  induction p using inductionOn with
  | matching rule => simp [mapM, postorder, returns, withInner]
  | reference target => simp [mapM, postorder, returns, withInner]
  | absent rule => simp [mapM, postorder, returns, withInner]
  | block rule ps ih =>
      rw [mapM, mapListM_look ih, postorder_block]
      simp [withInner]

end Calls

end Pattern

namespace Grammar

open Pattern (mapped)

/-!
## Leaving the patterns of a grammar
-/

def returnsOf (place : Nat → List Nat → Place) (ps : List Pattern) : List (Place × Pattern) :=
  ps.zipIdx.flatMap fun p => p.1.returns.map fun v => (place p.2 v.1, v.2)

def returns (g : Grammar) : List (Place × Pattern) :=
  returnsOf .topLevel g.topLevel ++ returnsOf .entry (g.entries.map (·.2))

theorem perm_returnsOf (place : Nat → List Nat → Place) (ps : List Pattern) :
    (returnsOf place ps).Perm (visitsOf place ps) := by
  apply List.Perm.flatMap_left
  intro p _
  exact p.1.perm_returns.map _

theorem perm_returns (g : Grammar) : g.returns.Perm g.visits :=
  (perm_returnsOf _ _).append (perm_returnsOf _ _)

theorem exists_eq_of_mem_returnsOf {place : Nat → List Nat → Place} {ps : List Pattern}
    {v : Place × Pattern} (hv : v ∈ returnsOf place ps) : ∃ i path, v.1 = place i path := by
  rcases List.mem_flatMap.mp hv with ⟨p, _, hv⟩
  rcases List.mem_map.mp hv with ⟨u, _, rfl⟩
  exact ⟨p.2, u.1, rfl⟩

/-- `hwithin` says that a place lies in another one of its kind if its path goes on from there. -/
theorem pairwise_returnsOf {place : Nat → List Nat → Place}
    (hwithin : ∀ i path j rest, (place i path).IsWithin (place j rest) → i = j ∧ rest <+: path)
    (ps : List Pattern) :
    (returnsOf place ps).Pairwise fun v w => ¬ w.1.IsWithin v.1 := by
  rw [returnsOf, List.pairwise_flatMap]
  constructor
  · intro p _
    rw [List.pairwise_map]
    apply p.1.pairwise_returns.imp
    intro v w hvw hin
    exact hvw (hwithin _ _ _ _ hin).2
  · apply (pairwise_zipIdx ps 0).imp
    intro p q hpq v hv w hw hin
    rcases List.mem_map.mp hv with ⟨v', _, rfl⟩
    rcases List.mem_map.mp hw with ⟨w', _, rfl⟩
    have hnumber := (hwithin _ _ _ _ hin).1
    omega

theorem pairwise_returns (g : Grammar) :
    g.returns.Pairwise fun v w => ¬ w.1.IsWithin v.1 := by
  rw [returns, List.pairwise_append]
  constructor
  · apply pairwise_returnsOf
    intro i path j rest hin
    rcases hin with ⟨more, hmore⟩
    cases hmore
    exact ⟨rfl, List.prefix_append _ _⟩
  · constructor
    · apply pairwise_returnsOf
      intro i path j rest hin
      rcases hin with ⟨more, hmore⟩
      cases hmore
      exact ⟨rfl, List.prefix_append _ _⟩
    · intro v hv w hw hin
      rcases exists_eq_of_mem_returnsOf hv with ⟨i, path, hplace⟩
      rcases exists_eq_of_mem_returnsOf hw with ⟨j, rest, hother⟩
      rw [hplace, hother] at hin
      rcases hin with ⟨more, hmore⟩
      cases hmore

def postorder (g : Grammar) : List Pattern :=
  g.returns.map (·.2)

theorem map_snd_returnsOf (place : Nat → List Nat → Place) (ps : List Pattern) :
    (returnsOf place ps).map (·.2) = ps.flatMap Pattern.postorder := by
  conv_rhs => rw [← List.zipIdx_map_fst 0 ps, List.flatMap_map]
  rw [returnsOf, List.map_flatMap]
  simp only [List.map_map]
  rfl

theorem postorder_eq (g : Grammar) :
    g.postorder =
      g.topLevel.flatMap Pattern.postorder ++ g.entries.flatMap fun e => e.2.postorder := by
  rw [postorder, returns, List.map_append, map_snd_returnsOf, map_snd_returnsOf,
    List.flatMap_map]

/-!
## What becomes of a grammar
-/

theorem mapEntriesM_pure (f : Pattern → Pattern) (es : List (String × Pattern)) :
    Id.run (mapEntriesM (fun p => pure (f p)) es) = es.map fun e => (e.1, e.2.mapped f) := by
  induction es with
  | nil => rfl
  | cons e es ih =>
      rw [List.map_cons, ← ih]
      rfl

theorem map_eq (f : Pattern → Pattern) (g : Grammar) :
    g.map f =
      { header := g.header
        patterns := g.patterns.map fun ps => ps.map (mapped f)
        repository := g.repository.map fun es => es.map fun e => (e.1, e.2.mapped f) } := by
  rcases g with ⟨header, patterns, repository⟩
  have hps : ∀ ps : List Pattern,
      Id.run (some <$> Pattern.mapListM (fun p => pure (f := Id) (f p)) ps) =
        some (ps.map (mapped f)) := by
    intro ps
    rw [← Pattern.mapListM_pure]
    rfl
  have hes : ∀ es : List (String × Pattern),
      Id.run (some <$> mapEntriesM (fun p => pure (f := Id) (f p)) es) =
        some (es.map fun e => (e.1, e.2.mapped f)) := by
    intro es
    rw [← mapEntriesM_pure]
    rfl
  cases patterns with
  | none =>
      cases repository with
      | none => rfl
      | some es =>
          rw [Option.map_some, ← hes es]
          rfl
  | some ps =>
      cases repository with
      | none =>
          rw [Option.map_some, ← hps ps]
          rfl
      | some es =>
          rw [Option.map_some, Option.map_some, ← hps ps, ← hes es]
          rfl

theorem map_id (g : Grammar) : g.map id = g := by
  have hid : mapped id = id := funext Pattern.mapped_id
  rw [map_eq, hid]
  simp

theorem map_map {f : Pattern → Pattern} (hf : Pattern.ChangesReferencesOnly f)
    (h : Pattern → Pattern) (g : Grammar) : (g.map f).map h = g.map (h ∘ f) := by
  rw [map_eq, map_eq, map_eq]
  simp only [Option.map_map, List.map_map, Function.comp_def, Pattern.mapped_mapped hf]

@[simp] theorem header_map (f : Pattern → Pattern) (g : Grammar) :
    (g.map f).header = g.header := by
  rw [map_eq]

@[simp] theorem topLevel_map (f : Pattern → Pattern) (g : Grammar) :
    (g.map f).topLevel = g.topLevel.map (mapped f) := by
  rw [map_eq, topLevel, topLevel]
  cases g.patterns <;> rfl

@[simp] theorem entries_map (f : Pattern → Pattern) (g : Grammar) :
    (g.map f).entries = g.entries.map fun e => (e.1, e.2.mapped f) := by
  rw [map_eq, entries, entries]
  cases g.repository <;> rfl

@[simp] theorem names_map (f : Pattern → Pattern) (g : Grammar) : (g.map f).names = g.names := by
  simp [names, Function.comp_def]

theorem location_map (f : Pattern → Pattern) (g : Grammar) (place : Place) :
    (g.map f).location place = g.location place := by
  cases place with
  | topLevel i path => rfl
  | entry i path =>
      simp only [location, entries_map, List.getElem?_map, Option.map_map]
      rfl

section Places

variable {f : Pattern → Pattern} (hf : Pattern.ChangesReferencesOnly f)
include hf

theorem visitsOf_map_mapped (place : Nat → List Nat → Place) (ps : List Pattern) :
    visitsOf place (ps.map (mapped f)) =
      (visitsOf place ps).map fun v => (v.1, v.2.mapped f) := by
  rw [visitsOf, visitsOf, List.zipIdx_map, List.flatMap_map, List.map_flatMap]
  apply List.flatMap_congr
  intro p _
  rw [Prod.map_fst, Prod.map_snd, Pattern.visits_mapped hf, List.map_map, List.map_map]
  rfl

theorem visits_map (g : Grammar) :
    (g.map f).visits = g.visits.map fun v => (v.1, v.2.mapped f) := by
  have hentries : (g.entries.map fun e => (e.1, e.2.mapped f)).map (·.2) =
      (g.entries.map (·.2)).map (mapped f) := by
    rw [List.map_map, List.map_map]
    rfl
  rw [visits, visits, topLevel_map, entries_map, hentries, visitsOf_map_mapped hf,
    visitsOf_map_mapped hf, List.map_append]

theorem walk_map (g : Grammar) :
    (g.map f).walk = g.walk.map fun v => (v.1, v.2.mapped f) := by
  rw [walk_eq_visits, walk_eq_visits, visits_map hf, List.map_map, List.map_map]
  apply List.map_congr_left
  intro v _
  simp only [Function.comp_apply, location_map]

/-- What stands at a place of a transformed grammar is what stood there, transformed. -/
theorem at?_map (g : Grammar) (place : Place) :
    (g.map f).at? place = (g.at? place).map (mapped f) := by
  ext p
  rw [← mem_visits_iff, visits_map hf, List.mem_map, Option.map_eq_some_iff]
  constructor
  · intro h
    rcases h with ⟨⟨other, q⟩, hv, heq⟩
    cases heq
    exact ⟨q, (g.mem_visits_iff _ _).mp hv, rfl⟩
  · intro h
    rcases h with ⟨q, hq, rfl⟩
    exact ⟨(place, q), (g.mem_visits_iff _ _).mpr hq, rfl⟩

end Places

/-!
## Calls for a grammar
-/

section Calls

variable {m : Type → Type} [Monad m] [LawfulMonad m]

theorem mapEntriesM_look (f : Pattern → Pattern) (look : Pattern → m Unit)
    (es : List (String × Pattern)) :
    (mapEntriesM (fun p => do look p; return f p) es) = do
      (es.flatMap fun e => e.2.postorder).forM fun p => look (p.withInner f)
      return es.map fun e => (e.1, e.2.mapped f) := by
  induction es with
  | nil => simp [mapEntriesM]
  | cons e es ih =>
      rw [mapEntriesM, Pattern.mapM_look, ih]
      simp

/-- A transformation that looks at the patterns it is given looks at each of the grammar once,
inner ones first. -/
theorem mapM_look (f : Pattern → Pattern) (look : Pattern → m Unit) (g : Grammar) :
    (g.mapM fun p => do look p; return f p) = do
      g.postorder.forM fun p => look (p.withInner f)
      return g.map f := by
  have hps : ∀ ps : List Pattern, (Pattern.mapListM (fun p => do look p; return f p) ps) = do
      (ps.flatMap Pattern.postorder).forM fun p => look (p.withInner f)
      return ps.map (mapped f) := by
    intro ps
    exact Pattern.mapListM_look fun p _ => Pattern.mapM_look f look p
  rw [postorder_eq, map_eq, mapM]
  rcases g with ⟨header, patterns, repository⟩
  cases patterns with
  | none =>
      cases repository with
      | none => simp [topLevel, entries]
      | some es =>
          simp only [mapEntriesM_look]
          simp [topLevel, entries]
  | some ps =>
      cases repository with
      | none =>
          simp only [hps]
          simp [topLevel, entries]
      | some es =>
          simp only [hps, mapEntriesM_look]
          simp [topLevel, entries]

theorem mapM_look_return (look : Pattern → m Unit) (g : Grammar) :
    (g.mapM fun p => do look p; return p) = do
      g.postorder.forM look
      return g := by
  have hlook := mapM_look id look g
  simp only [Pattern.withInner_id, map_id] at hlook
  exact hlook

end Calls

theorem transformed_eq_postorder (g : Grammar) : g.transformed = g.postorder := by
  -- each call is put in front of the calls before it
  have hseen : ∀ ps seen : List Pattern,
      ((ps.forM fun p => modify (m := StateM (List Pattern)) (p :: ·)).run seen).2 =
        ps.reverse ++ seen := by
    intro ps
    induction ps with
    | nil =>
        intro seen
        rfl
    | cons p ps ih =>
        intro seen
        rw [List.reverse_cons, List.append_assoc]
        exact ih (p :: seen)
  have hrun : ((g.postorder.forM fun p => modify (m := StateM (List Pattern)) (p :: ·)).run []).2 =
      g.postorder.reverse := by
    rw [hseen, List.append_nil]
  rw [transformed, mapM_look_return]
  exact (congrArg List.reverse hrun).trans (List.reverse_reverse _)

/-- Calls for all patterns that the walk meets, each with the place of the pattern, such that what
lies in a pattern comes before it. -/
structure IsInnerFirst (g : Grammar) (calls : List (Place × Pattern)) : Prop where
  each_once : calls.Perm g.visits
  walked : (calls.map fun v => (g.location v.1, v.2)).Perm g.walk
  inner_first : calls.Pairwise fun v w => ¬ w.1.IsWithin v.1

theorem isInnerFirst_returns (g : Grammar) : g.IsInnerFirst g.returns where
  each_once := g.perm_returns
  walked := by
    rw [walk_eq_visits]
    exact g.perm_returns.map _
  inner_first := g.pairwise_returns

/-- The identity gives back the grammar, and is called once for each pattern, after the calls for
the patterns in it; so is every transformation that has effects but gives back what it is given.
Of two transformations the first of which changes nothing but what references refer to, the second
may as well be applied right after the first, at each pattern. -/
theorem mapping_keeps_structure (g : Grammar) :
    g.map id = g
      ∧ (∃ calls, g.IsInnerFirst calls
          ∧ g.transformed = calls.map (·.2)
          ∧ ∀ (m : Type → Type) [Monad m] [LawfulMonad m] (look : Pattern → m Unit),
              (g.mapM fun p => do look p; return p) = do
                calls.forM fun v => look v.2
                return g)
      ∧ ∀ f h, Pattern.ChangesReferencesOnly f → (g.map f).map h = g.map (h ∘ f) := by
  constructor
  · exact g.map_id
  · constructor
    · exists g.returns
      constructor
      · exact g.isInnerFirst_returns
      · constructor
        · exact g.transformed_eq_postorder
        · intro m _ _ look
          rw [mapM_look_return, postorder]
          simp only [List.forM_eq_forM, List.forM_map]
    · intro f h hf
      exact map_map hf h g

def nested : Grammar where
  header := ⟨none, none, "source.x", none, none, none, "", "", "u"⟩
  patterns := some [
    .block ⟨some "outer", "(", none, ")", none, none, none⟩ (some [
      .block ⟨some "empty", "[", none, "]", none, none, none⟩ (some []),
      .block ⟨some "inner", "<", none, ">", none, none, none⟩ (some [.reference "!!a"])])]
  repository := some [("here", .reference "#here")]

/-- Taking marks away twice is taking away two marks at each reference. -/
theorem nested_mapping :
    Pattern.ChangesReferencesOnly Pattern.unmarkTarget
      ∧ (nested.map Pattern.unmarkTarget).map Pattern.unmarkTarget =
        nested.map (Pattern.unmarkTarget ∘ Pattern.unmarkTarget)
      ∧ ∃ calls, nested.IsInnerFirst calls
          ∧ (nested.mapM (m := StateM Nat) fun p => do modify (· + 1); return p) = do
            calls.forM fun _ => modify (· + 1)
            return nested := by
  have hmarks : Pattern.ChangesReferencesOnly Pattern.unmarkTarget :=
    Pattern.changesReferencesOnly_unmarkTarget
  rcases mapping_keeps_structure nested with ⟨_, ⟨calls, hcalls, _, hlook⟩, hcomp⟩
  exact ⟨hmarks, hcomp _ _ hmarks, calls, hcalls, hlook _ fun _ => modify (· + 1)⟩

end Grammar
end TextMate
