import TextMate.Grammar.Walk

/-!
# Places of patterns

A place tells how to reach a pattern: which top-level pattern or which entry of
the repository to start from, and which inner pattern to take at each block on
the way.  Looking a place up and listing the visits of a grammar are defined
independently of each other and of the walk.  The main results say that the
visits list every place that leads to a pattern exactly once and in increasing
order, and that the walk is the list of visits with the places spelled out as
locations.
-/

namespace TextMate

theorem pairwise_zipIdx {α : Type} (xs : List α) (start : Nat) :
    (xs.zipIdx start).Pairwise fun x y => x.2 < y.2 := by
  induction xs generalizing start with
  | nil => exact List.Pairwise.nil
  | cons x xs ih =>
      rw [List.zipIdx_cons, List.pairwise_cons]
      constructor
      · intro y hy
        exact List.le_snd_of_mem_zipIdx hy
      · exact ih (start + 1)

namespace Pattern

/-- To show something of all patterns, it may be assumed of the inner patterns of a block. -/
theorem inductionOn {motive : Pattern → Prop}
    (matching : ∀ rule, motive (.matching rule))
    (reference : ∀ target, motive (.reference target))
    (absent : ∀ rule, motive (.block rule none))
    (block : ∀ rule ps, (∀ p ∈ ps, motive p) → motive (.block rule (some ps))) :
    ∀ p, motive p :=
  fun p =>
    @Pattern.rec motive (fun ps => ∀ qs, ps = some qs → ∀ p ∈ qs, motive p)
      (fun ps => ∀ p ∈ ps, motive p)
      matching
      (fun rule ps ih =>
        match ps with
        | none => absent rule
        | some qs => block rule qs (ih qs rfl))
      reference
      (fun _ h => nomatch h)
      (fun _ ih qs h => by
        cases h
        exact ih)
      (fun _ h => nomatch h)
      (fun _ _ hp hps q hq => by
        rcases List.mem_cons.mp hq with rfl | hq
        · exact hp
        · exact hps q hq)
      p

/-!
## Paths into a pattern
-/

def at? (p : Pattern) : List Nat → Option Pattern
  | [] => some p
  | i :: path => p.inner[i]?.bind fun q => q.at? path

mutual

def visits : Pattern → List (List Nat × Pattern)
  | block rule (some ps) => ([], block rule (some ps)) :: visitsFrom 0 ps
  | p => [([], p)]

def visitsFrom : Nat → List Pattern → List (List Nat × Pattern)
  | _, [] => []
  | i, p :: ps => p.visits.map (fun v => (i :: v.1, v.2)) ++ visitsFrom (i + 1) ps

end

def pathText : List Nat → String
  | [] => ""
  | i :: path => "/patterns/" ++ toString i ++ pathText path

@[simp] theorem at?_nil (p : Pattern) : p.at? [] = some p := rfl

theorem at?_cons (p : Pattern) (i : Nat) (path : List Nat) :
    p.at? (i :: path) = p.inner[i]?.bind fun q => q.at? path := rfl

theorem at?_append (p : Pattern) (path rest : List Nat) :
    p.at? (path ++ rest) = (p.at? path).bind fun q => q.at? rest := by
  induction path generalizing p with
  | nil => rfl
  | cons i path ih =>
      rw [List.cons_append, at?_cons, at?_cons, Option.bind_assoc]
      congr 1
      funext q
      exact ih q

@[simp] theorem pathText_nil : pathText [] = "" := rfl

theorem visits_block (rule : BlockRule Capture) (ps : List Pattern) :
    (block rule (some ps)).visits = ([], block rule (some ps)) :: visitsFrom 0 ps := rfl

theorem visitsFrom_cons (i : Nat) (p : Pattern) (ps : List Pattern) :
    visitsFrom i (p :: ps) =
      p.visits.map (fun v => (i :: v.1, v.2)) ++ visitsFrom (i + 1) ps := rfl

/-- The visits of a list are those of its patterns, with the number of the pattern in front. -/
theorem mem_visitsFrom_iff {start : Nat} {ps : List Pattern} {path : List Nat} {q : Pattern} :
    (path, q) ∈ visitsFrom start ps ↔
      ∃ i rest p, path = (start + i) :: rest ∧ ps[i]? = some p ∧ (rest, q) ∈ p.visits := by
  induction ps generalizing start with
  | nil =>
      constructor
      · intro h
        cases h
      · rintro ⟨i, rest, p, _, hp, _⟩
        simp at hp
  | cons p ps ih =>
      rw [visitsFrom_cons, List.mem_append, List.mem_map, ih]
      constructor
      · rintro (⟨⟨rest, q'⟩, hv, heq⟩ | ⟨i, rest, p', rfl, hp', hv⟩)
        · cases heq
          exact ⟨0, rest, p, rfl, rfl, hv⟩
        · refine ⟨i + 1, rest, p', ?_, hp', hv⟩
          rw [show start + 1 + i = start + (i + 1) by omega]
      · rintro ⟨i, rest, p', rfl, hp', hv⟩
        cases i with
        | zero =>
            cases hp'
            exact Or.inl ⟨(rest, q), hv, rfl⟩
        | succ i =>
            refine Or.inr ⟨i, rest, p', ?_, hp', hv⟩
            rw [show start + 1 + i = start + (i + 1) by omega]

theorem mem_visits_iff (p : Pattern) :
    ∀ (path : List Nat) (q : Pattern), (path, q) ∈ p.visits ↔ p.at? path = some q := by
  -- a pattern without inner ones is its only visit
  have leaf : ∀ p : Pattern, p.visits = [([], p)] → p.inner = [] →
      ∀ (path : List Nat) (q : Pattern), (path, q) ∈ p.visits ↔ p.at? path = some q := by
    intro p hv hi path q
    rw [hv, List.mem_singleton]
    cases path with
    | nil => simp [eq_comm]
    | cons i path => simp [at?_cons, hi]
  induction p using inductionOn with
  | matching rule => exact leaf _ rfl rfl
  | reference target => exact leaf _ rfl rfl
  | absent rule => exact leaf _ rfl rfl
  | block rule ps ih =>
      intro path q
      rw [visits_block, List.mem_cons, mem_visitsFrom_iff]
      cases path with
      | nil => simp [eq_comm]
      | cons i path =>
          have hat : (block rule (some ps)).at? (i :: path) =
              ps[i]?.bind fun r => r.at? path := rfl
          rw [hat, Option.bind_eq_some_iff]
          constructor
          · rintro (h | ⟨j, rest, r, heq, hr, hv⟩)
            · cases h
            · rw [Nat.zero_add] at heq
              cases heq
              exact ⟨r, hr, (ih r (List.mem_of_getElem? hr) _ _).mp hv⟩
          · rintro ⟨r, hr, hq⟩
            exact Or.inr ⟨i, path, r, by rw [Nat.zero_add], hr,
              (ih r (List.mem_of_getElem? hr) _ _).mpr hq⟩

theorem pairwise_visitsFrom {ps : List Pattern}
    (h : ∀ p ∈ ps, p.visits.Pairwise fun v w => v.1 < w.1) (start : Nat) :
    (visitsFrom start ps).Pairwise fun v w => v.1 < w.1 := by
  induction ps generalizing start with
  | nil => exact List.Pairwise.nil
  | cons p ps ih =>
      rw [visitsFrom_cons, List.pairwise_append]
      refine ⟨?_, ih (fun q hq => h q (List.mem_cons_of_mem p hq)) (start + 1), ?_⟩
      · rw [List.pairwise_map]
        exact (h p List.mem_cons_self).imp fun hlt =>
          List.cons_lt_cons_iff.mpr (Or.inr ⟨rfl, hlt⟩)
      · rintro v hv ⟨path, q⟩ hw
        rcases List.mem_map.mp hv with ⟨u, _, rfl⟩
        rcases mem_visitsFrom_iff.mp hw with ⟨i, rest, _, rfl, _, _⟩
        exact List.cons_lt_cons_iff.mpr (Or.inl (by omega))

theorem pairwise_visits (p : Pattern) : p.visits.Pairwise fun v w => v.1 < w.1 := by
  induction p using inductionOn with
  | matching rule => exact List.pairwise_singleton _ _
  | reference target => exact List.pairwise_singleton _ _
  | absent rule => exact List.pairwise_singleton _ _
  | block rule ps ih =>
      rw [visits_block, List.pairwise_cons]
      refine ⟨?_, pairwise_visitsFrom ih 0⟩
      rintro ⟨path, q⟩ hv
      rcases mem_visitsFrom_iff.mp hv with ⟨i, rest, _, rfl, _, _⟩
      exact List.nil_lt_cons _ _

/-- If the walk of every pattern of a list consists of its visits, so does that of the list. -/
theorem walkFrom_eq_visitsFrom {ps : List Pattern}
    (h : ∀ p ∈ ps, ∀ location,
      walk location p = p.visits.map fun v => (location ++ pathText v.1, v.2))
    (location : String) (start : Nat) :
    walkFrom (location ++ "/patterns/") start ps =
      (visitsFrom start ps).map fun v => (location ++ pathText v.1, v.2) := by
  induction ps generalizing start with
  | nil => rfl
  | cons p ps ih =>
      rw [walkFrom, visitsFrom_cons, List.map_append, List.map_map,
        h p List.mem_cons_self, ih (fun q hq => h q (List.mem_cons_of_mem p hq))]
      congr 1
      apply List.map_congr_left
      intro v _
      simp [pathText, String.append_assoc]

theorem walk_eq_visits (p : Pattern) (location : String) :
    walk location p = p.visits.map fun v => (location ++ pathText v.1, v.2) := by
  induction p using inductionOn generalizing location with
  | matching rule => simp [walk, visits]
  | reference target => simp [walk, visits]
  | absent rule => simp [walk, visits]
  | block rule ps ih =>
      rw [walk, visits_block, walkFrom_eq_visitsFrom ih]
      simp

end Pattern

/-!
## Places in a grammar
-/

/-- The way to a pattern of a grammar. -/
inductive Place where
  | topLevel (i : Nat) (path : List Nat)
  | entry (i : Nat) (path : List Nat)
  deriving DecidableEq, Repr

namespace Place

/-- Top-level patterns come before the entries of the repository, and a pattern before those
in it. -/
def Precedes : Place → Place → Prop
  | topLevel i path, topLevel j rest => i :: path < j :: rest
  | topLevel _ _, entry _ _ => True
  | entry _ _, topLevel _ _ => False
  | entry i path, entry j rest => i :: path < j :: rest

def extend : Place → List Nat → Place
  | topLevel i path, rest => topLevel i (path ++ rest)
  | entry i path, rest => entry i (path ++ rest)

def IsWithin (inside outside : Place) : Prop :=
  ∃ rest, inside = outside.extend rest

end Place

namespace Grammar

def at? (g : Grammar) : Place → Option Pattern
  | .topLevel i path => g.topLevel[i]?.bind fun p => p.at? path
  | .entry i path => g.entries[i]?.bind fun e => e.2.at? path

def location (g : Grammar) : Place → String
  | .topLevel i path => "patterns/" ++ toString i ++ Pattern.pathText path
  | .entry i path =>
      "repository/" ++ ((g.entries[i]?.map (·.1)).getD "") ++ Pattern.pathText path

def visitsOf (place : Nat → List Nat → Place) (ps : List Pattern) : List (Place × Pattern) :=
  ps.zipIdx.flatMap fun p => p.1.visits.map fun v => (place p.2 v.1, v.2)

def visits (g : Grammar) : List (Place × Pattern) :=
  visitsOf .topLevel g.topLevel ++ visitsOf .entry (g.entries.map (·.2))

theorem mem_visitsOf_iff {place : Nat → List Nat → Place} {ps : List Pattern} {at' : Place}
    {q : Pattern} :
    (at', q) ∈ visitsOf place ps ↔
      ∃ i path p, at' = place i path ∧ ps[i]? = some p ∧ p.at? path = some q := by
  simp only [visitsOf, List.mem_flatMap, List.mem_map]
  constructor
  · rintro ⟨⟨p, i⟩, hp, ⟨path, r⟩, hv, heq⟩
    cases heq
    exact ⟨i, path, p, rfl, List.mem_zipIdx_iff_getElem?.mp hp, (p.mem_visits_iff _ _).mp hv⟩
  · rintro ⟨i, path, p, rfl, hp, hq⟩
    exact ⟨(p, i), List.mem_zipIdx_iff_getElem?.mpr hp, (path, q),
      (p.mem_visits_iff _ _).mpr hq, rfl⟩

/-- The visits list exactly the places that lead to a pattern, each with its pattern. -/
theorem mem_visits_iff (g : Grammar) (place : Place) (p : Pattern) :
    (place, p) ∈ g.visits ↔ g.at? place = some p := by
  rw [visits, List.mem_append, mem_visitsOf_iff, mem_visitsOf_iff]
  cases place with
  | topLevel i path =>
      simp only [at?, Option.bind_eq_some_iff]
      constructor
      · rintro (⟨j, rest, q, heq, hq, hp⟩ | ⟨j, rest, q, heq, _, _⟩)
        · cases heq
          exact ⟨q, hq, hp⟩
        · cases heq
      · rintro ⟨q, hq, hp⟩
        exact Or.inl ⟨i, path, q, rfl, hq, hp⟩
  | entry i path =>
      simp only [at?, Option.bind_eq_some_iff, List.getElem?_map, Option.map_eq_some_iff]
      constructor
      · rintro (⟨j, rest, q, heq, _, _⟩ | ⟨j, rest, q, heq, ⟨e, he, rfl⟩, hp⟩)
        · cases heq
        · cases heq
          exact ⟨e, he, hp⟩
      · rintro ⟨e, he, hp⟩
        exact Or.inr ⟨i, path, e.2, rfl, ⟨e, he, rfl⟩, hp⟩

theorem pairwise_visitsOf (place : Nat → List Nat → Place)
    (hlt : ∀ i path j rest, i :: path < j :: rest → (place i path).Precedes (place j rest))
    (ps : List Pattern) :
    (visitsOf place ps).Pairwise fun v w => v.1.Precedes w.1 := by
  rw [visitsOf, List.pairwise_flatMap]
  refine ⟨?_, (pairwise_zipIdx ps 0).imp ?_⟩
  · rintro ⟨p, i⟩ _
    rw [List.pairwise_map]
    exact p.pairwise_visits.imp fun h =>
      hlt _ _ _ _ (List.cons_lt_cons_iff.mpr (Or.inr ⟨rfl, h⟩))
  · rintro ⟨p, i⟩ ⟨q, j⟩ hij v hv w hw
    rcases List.mem_map.mp hv with ⟨v', _, rfl⟩
    rcases List.mem_map.mp hw with ⟨w', _, rfl⟩
    exact hlt _ _ _ _ (List.cons_lt_cons_iff.mpr (Or.inl hij))

theorem pairwise_visits (g : Grammar) :
    g.visits.Pairwise fun v w => v.1.Precedes w.1 := by
  rw [visits, List.pairwise_append]
  refine ⟨pairwise_visitsOf .topLevel (fun _ _ _ _ h => h) _,
    pairwise_visitsOf .entry (fun _ _ _ _ h => h) _, ?_⟩
  rintro ⟨v, p⟩ hv ⟨w, q⟩ hw
  rcases mem_visitsOf_iff.mp hv with ⟨_, _, _, rfl, _, _⟩
  rcases mem_visitsOf_iff.mp hw with ⟨_, _, _, rfl, _, _⟩
  trivial

theorem walkFrom_topLevel (ps : List Pattern) (start : Nat) :
    Pattern.walkFrom "patterns/" start ps =
      (ps.zipIdx start).flatMap fun p => p.1.visits.map fun v =>
        ("patterns/" ++ toString p.2 ++ Pattern.pathText v.1, v.2) := by
  induction ps generalizing start with
  | nil => rfl
  | cons p ps ih =>
      rw [Pattern.walkFrom, List.zipIdx_cons, List.flatMap_cons, ih, Pattern.walk_eq_visits]

theorem flatMap_walk_entries (g : Grammar) (es : List (String × Pattern)) (start : Nat)
    (h : ∀ i, g.entries[start + i]? = es[i]?) :
    (es.flatMap fun e => e.2.walk ("repository/" ++ e.1)) =
      (es.zipIdx start).flatMap fun e =>
        e.1.2.visits.map fun v => (g.location (.entry e.2 v.1), v.2) := by
  induction es generalizing start with
  | nil => rfl
  | cons e es ih =>
      rw [List.flatMap_cons, List.zipIdx_cons, List.flatMap_cons, ih (start + 1)]
      · congr 1
        rw [Pattern.walk_eq_visits]
        apply List.map_congr_left
        intro v _
        have he : g.entries[start]? = some e := h 0
        simp [location, he]
      · intro i
        rw [show start + 1 + i = start + (i + 1) by omega, h (i + 1)]
        rfl

theorem walk_eq_visits (g : Grammar) :
    g.walk = g.visits.map fun v => (g.location v.1, v.2) := by
  rw [walk, visits, List.map_append]
  congr 1
  · rw [walkFrom_topLevel, visitsOf, List.map_flatMap]
    simp only [List.map_map]
    rfl
  · rw [flatMap_walk_entries g _ 0 (fun i => by rw [Nat.zero_add]), visitsOf,
      List.map_flatMap, List.zipIdx_map, List.flatMap_map]
    simp only [List.map_map]
    rfl

end Grammar
end TextMate
