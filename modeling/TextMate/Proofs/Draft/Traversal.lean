import TextMate.Proofs.Draft.Slots

/-!
# Traversals

A traversal goes through the members of slots one after the other, into each block
before what follows it, and fails at strays.  These laws are all that is needed to
know where it ends: the main results say that every traversal fails at the first
stray, with this value and the location of its place, and passes where there is no
stray.
-/

namespace TextMate
namespace Draft

def numbered (base : String) (vs : List Value) : List (String × Value) :=
  vs.zipIdx.map fun p => (base ++ toString p.2, p.1)

def inside (location : String) (v : Value) : List (String × Value) :=
  numbered (location ++ "/patterns/") (inner v)

def locatedTopLevel (g : Value) : List (String × Value) :=
  numbered "patterns/" (topLevel g)

def locatedEntries (g : Value) : List (String × Value) :=
  (repositoryEntries g).map fun e => (member "repository/" e.1, e.2)

/-- Work on values with their locations that passes or fails, alone and in a row. -/
structure Traversal where
  Passes : String → Value → Prop
  Fails : String → Value → Fault → Prop
  PassesAll : List (String × Value) → Prop
  FailsAll : List (String × Value) → Fault → Prop
  /-- Strays are not passed. -/
  fails_stray : ∀ location v, isPattern v = false → Fails location v (shapeFault location v)
  /-- Patterns are passed exactly where the patterns inside them are. -/
  passes_pattern : ∀ location kind fields, kind.isPattern = true → IsTyped kind fields →
    PassesAll (inside location (.record kind fields)) → Passes location (.record kind fields)
  fails_pattern : ∀ location kind fields fault, kind.isPattern = true → IsTyped kind fields →
    FailsAll (inside location (.record kind fields)) fault →
      Fails location (.record kind fields) fault
  /-- In a row the first failure counts. -/
  passes_nil : PassesAll []
  passes_cons : ∀ n ns, Passes n.1 n.2 → PassesAll ns → PassesAll (n :: ns)
  fails_head : ∀ n ns fault, Fails n.1 n.2 fault → FailsAll (n :: ns) fault
  fails_tail : ∀ n ns fault, Passes n.1 n.2 → FailsAll ns fault → FailsAll (n :: ns) fault

/-- Every traversal of a value passes if there is no stray in it, and else fails at the first. -/
def EndsAtFirstStray (location : String) (v : Value) : Prop :=
  (HasNoStray (at? v) ∧ ∀ t : Traversal, t.Passes location v)
    ∨ ∃ path w, IsFirstStray (· < ·) (at? v) path w
      ∧ ∀ t : Traversal, t.Fails location v (shapeFault (location ++ Pattern.pathText path) w)

def AllEndAtFirstStray (ns : List (String × Value)) : Prop :=
  (HasNoStray (itemAt? (ns.map (·.2))) ∧ ∀ t : Traversal, t.PassesAll ns)
    ∨ ∃ i path n w, ns[i]? = some n
      ∧ IsFirstStray (· < ·) (itemAt? (ns.map (·.2))) (i :: path) w
      ∧ ∀ t : Traversal, t.FailsAll ns (shapeFault (n.1 ++ Pattern.pathText path) w)

theorem AllEndAtFirstStray.of_mem {ns : List (String × Value)}
    (h : ∀ n ∈ ns, EndsAtFirstStray n.1 n.2) : AllEndAtFirstStray ns := by
  induction ns with
  | nil => exact Or.inl ⟨hasNoStray_nil, fun t => t.passes_nil⟩
  | cons n ns ih =>
      -- What follows a member counts only if there is no stray in the member.
      rcases h n List.mem_cons_self with ⟨hclean, hpasses⟩ | ⟨path, w, hfirst, hfails⟩
      · rcases ih fun m hm => h m (List.mem_cons_of_mem n hm) with
          ⟨hrest, hpassesAll⟩ | ⟨i, path, m, w, hm, hfirst, hfailsAll⟩
        · apply Or.inl
          constructor
          · exact hasNoStray_cons hclean hrest
          · intro t
            exact t.passes_cons n ns (hpasses t) (hpassesAll t)
        · apply Or.inr
          refine ⟨i + 1, path, m, w, hm, isFirstStray_tail hclean hfirst, ?_⟩
          intro t
          exact t.fails_tail n ns _ (hpasses t) (hfailsAll t)
      · apply Or.inr
        refine ⟨0, path, n, w, rfl, isFirstStray_head hfirst, ?_⟩
        intro t
        exact t.fails_head n ns _ (hfails t)

theorem map_snd_numbered (base : String) (vs : List Value) :
    (numbered base vs).map (·.2) = vs := by
  rw [numbered, List.map_map]
  exact List.zipIdx_map_fst 0 vs

theorem location_of_numbered {base : String} {vs : List Value} {i : Nat} {n : String × Value}
    (h : (numbered base vs)[i]? = some n) : n.1 = base ++ toString i := by
  rw [numbered, List.getElem?_map, List.getElem?_zipIdx] at h
  rcases Option.map_eq_some_iff.mp h with ⟨p, hp, rfl⟩
  rcases Option.map_eq_some_iff.mp hp with ⟨v, _, rfl⟩
  rw [Nat.zero_add]

theorem mem_of_mem_numbered {base : String} {vs : List Value} {n : String × Value}
    (h : n ∈ numbered base vs) : n.2 ∈ vs := by
  rw [← map_snd_numbered base vs]
  exact List.mem_map_of_mem h

theorem IsLoose.endsAtFirstStray {v : Value} (h : IsLoose v) (location : String) :
    EndsAtFirstStray location v := by
  induction h generalizing location with
  | @stray v hstray =>
      apply Or.inr
      refine ⟨[], v, isFirstStray_self hstray, ?_⟩
      intro t
      rw [Pattern.pathText_nil, String.append_empty]
      exact t.fails_stray location v hstray
  | @pattern kind fields hkind htyped _ ih =>
      have hall : AllEndAtFirstStray (inside location (.record kind fields)) :=
        .of_mem fun n hn => ih n.2 (mem_of_mem_numbered hn) n.1
      rw [AllEndAtFirstStray, inside, map_snd_numbered] at hall
      rcases hall with ⟨hclean, hpasses⟩ | ⟨i, path, n, w, hn, hfirst, hfails⟩
      · apply Or.inl
        constructor
        · exact hasNoStray_of_inner hkind hclean
        · intro t
          exact t.passes_pattern location kind fields hkind htyped (hpasses t)
      -- The place in the block is the number of the member and the place in it.
      · apply Or.inr
        refine ⟨i :: path, w, isFirstStray_of_inner hkind hfirst, ?_⟩
        intro t
        have hfail := t.fails_pattern location kind fields _ hkind htyped (hfails t)
        rw [location_of_numbered hn] at hfail
        rw [Pattern.pathText, ← String.append_assoc, ← String.append_assoc]
        exact hfail

/-!
## Grammars
-/

/-- Every traversal that takes the top-level patterns first passes a grammar if there is no stray in
it, and else fails at the first. -/
theorem IsLooseGrammar.endsAtFirstStray {g : Value} (hg : IsLooseGrammar g) :
    (HasNoStray (placeAt? g)
        ∧ ∀ t : Traversal, t.PassesAll (locatedTopLevel g) ∧ t.PassesAll (locatedEntries g))
      ∨ ∃ place v, IsFirstStray Place.Precedes (placeAt? g) place v
        ∧ ∀ t : Traversal,
          t.FailsAll (locatedTopLevel g) (shapeFault (placeText g place) v)
            ∨ t.PassesAll (locatedTopLevel g)
              ∧ t.FailsAll (locatedEntries g) (shapeFault (placeText g place) v) := by
  have htop : AllEndAtFirstStray (locatedTopLevel g) :=
    .of_mem fun n hn => (hg.topLevel n.2 (mem_of_mem_numbered hn)).endsAtFirstStray n.1
  have hentries : AllEndAtFirstStray (locatedEntries g) := by
    apply AllEndAtFirstStray.of_mem
    intro n hn
    rcases List.mem_map.mp hn with ⟨e, he, rfl⟩
    exact (hg.entries e he).endsAtFirstStray _
  have hvalues : (locatedEntries g).map (·.2) = (repositoryEntries g).map (·.2) := by
    rw [locatedEntries, List.map_map]
    rfl
  rw [AllEndAtFirstStray, locatedTopLevel, map_snd_numbered, ← locatedTopLevel] at htop
  rw [AllEndAtFirstStray, hvalues] at hentries
  rcases htop with ⟨hclean, hpasses⟩ | ⟨i, path, n, v, hn, hfirst, hfails⟩
  · rcases hentries with ⟨hrest, hpassesRest⟩ | ⟨i, path, n, v, hn, hfirst, hfails⟩
    · apply Or.inl
      constructor
      · exact hasNoStray_places hclean hrest
      · intro t
        exact ⟨hpasses t, hpassesRest t⟩
    · apply Or.inr
      refine ⟨.entry i path, v, isFirstStray_entry hclean hfirst, ?_⟩
      intro t
      rw [locatedEntries, List.getElem?_map] at hn
      rcases Option.map_eq_some_iff.mp hn with ⟨e, he, rfl⟩
      rw [placeText, he]
      exact Or.inr ⟨hpasses t, hfails t⟩
  · apply Or.inr
    refine ⟨.topLevel i path, v, isFirstStray_topLevel hfirst, ?_⟩
    intro t
    have hfail := hfails t
    rw [location_of_numbered hn] at hfail
    exact Or.inl hfail

end Draft
end TextMate
