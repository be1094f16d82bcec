import TextMate.Grammar.Source
import TextMate.Proofs.Grammar.DocumentFields

/-!
# Checked grammars

What the check of grammars accepts is well formed: mappings lose all but the last
value under a name, so names in captures and in the repository differ, and blocks
nest no deeper than the check goes.  This holds of every grammar that a value or
a text describes.
-/

namespace TextMate
namespace Schema

variable {α κ π γ : Type}

namespace Site

theorem list_eq_accepted {check : Site → Verdict α} {s : Site} {as : List α}
    (h : list check s = .accepted as) : ∀ a ∈ as, ∃ m, check m = .accepted a := by
  unfold list at h
  split at h
  · intro a ha
    have hall := Verdict.all_eq_accepted h
    have hmem : Verdict.accepted a ∈ as.map Verdict.accepted := List.mem_map.mpr ⟨a, ha, rfl⟩
    rw [← hall] at hmem
    rcases List.mem_map.mp hmem with ⟨m, _, hm⟩
    exact ⟨m, hm⟩
  · cases h

/-- The names of an accepted mapping differ, and what stands under them was accepted. -/
theorem mapping_eq_accepted {check : Site → Verdict α} {s : Site} {es : List (String × α)}
    (h : mapping check s = .accepted es) :
    (es.map (·.1)).Nodup ∧ ∀ e ∈ es, ∃ m, check m = .accepted e.2 := by
  unfold mapping at h
  split at h
  · cases h
  · rcases Verdict.map_eq_accepted_iff.mp h with ⟨all, hall, rfl⟩
    refine ⟨nodup_namedOf all, fun e he => ?_⟩
    have hmem : Verdict.accepted e ∈ all.map Verdict.accepted :=
      List.mem_map.mpr ⟨e, mem_of_mem_namedOf he, rfl⟩
    rw [← Verdict.all_eq_accepted hall] at hmem
    rcases List.mem_map.mp hmem with ⟨d, _, hd⟩
    rcases Verdict.seq_eq_accepted_iff.mp hd with ⟨f, a, hf, ha, rfl⟩
    rcases Verdict.map_eq_accepted_iff.mp hf with ⟨name, _, rfl⟩
    exact ⟨_, ha⟩

end Site

namespace Form

theorem check_eq_accepted {kind : Kind} {s : Site} {fields : Form → Verdict α} {a : α}
    (h : check kind s fields = .accepted a) :
    ∃ es, Site.entries? s.value = some es ∧ fields ⟨kind, s, es⟩ = .accepted a := by
  unfold check at h
  split at h
  · rename_i es hes
    split at h
    · cases h
    · exact ⟨es, hes, h⟩
  · cases h

theorem optional_eq_accepted {form : Form} {field : Field} {check : Site → Verdict α}
    {x : Option α} (h : form.optional field check = .accepted x) :
    x = none ∨ ∃ a s, x = some a ∧ check s = .accepted a := by
  unfold optional Site.defaulted at h
  split at h
  · unfold Site.optional at h
    split at h
    · cases h
      exact Or.inl rfl
    · rcases Verdict.map_eq_accepted_iff.mp h with ⟨a, ha, rfl⟩
      exact Or.inr ⟨a, _, rfl, ha⟩
  · cases h
    exact Or.inl rfl

end Form

theorem nodup_of_checkCaptures {a : Assembly κ π γ} {s : Site} {cs : List (String × κ)}
    (h : checkCaptures a s = .accepted cs) : (cs.map (·.1)).Nodup := by
  unfold checkCaptures at h
  split at h
  · split at h
    · cases h
    · exact (Site.mapping_eq_accepted h).1
  · exact (Site.mapping_eq_accepted h).1

theorem namesDiffer_of_optional {form : Form} {field : Field} {a : Assembly κ π γ}
    {captures : Option (List (String × κ))}
    (h : form.optional field (checkCaptures a) = .accepted captures) : NamesDiffer captures := by
  rcases Form.optional_eq_accepted h with rfl | ⟨cs, s, rfl, hcs⟩
  · exact namesDiffer_none
  · exact nodup_of_checkCaptures hcs

end Schema

open Schema

namespace Pattern

theorem wellFormed_matching {rule : MatchRule Capture} (nesting : Nat) :
    (matching rule).WellFormed nesting ↔ NamesDiffer rule.captures := by
  cases nesting <;> rfl

theorem wellFormed_reference (target : String) (nesting : Nat) :
    (reference target).WellFormed nesting := by
  cases nesting <;> trivial

theorem namesDiffer_of_checkBlockRule {form : Form} {rule : BlockRule Capture}
    (h : checkBlockRule Grammar.assembly form = .accepted rule) :
    NamesDiffer rule.openingCaptures ∧ NamesDiffer rule.closingCaptures
      ∧ NamesDiffer rule.captures := by
  unfold checkBlockRule at h
  simp only [Verdict.seq_eq_accepted_iff, Verdict.map_eq_accepted_iff] at h
  rcases h with ⟨_, contentName, ⟨_, captures, ⟨_, closingCaptures, ⟨_, closing,
    ⟨_, openingCaptures, ⟨_, opening, ⟨name, _, rfl⟩, _, rfl⟩, hopening, rfl⟩, _, rfl⟩,
    hclosing, rfl⟩, hcaptures, rfl⟩, _, rfl⟩
  exact ⟨namesDiffer_of_optional hopening, namesDiffer_of_optional hclosing,
    namesDiffer_of_optional hcaptures⟩

/-- A block has a rule with different names in captures, and its patterns were accepted. -/
theorem block_of_checkBlock {inner : Site → Verdict Pattern} {s : Site} {p : Pattern}
    (h : checkBlock Grammar.assembly inner s = .accepted p) :
    ∃ rule patterns, p = block rule patterns ∧ NamesDiffer rule.openingCaptures
      ∧ NamesDiffer rule.closingCaptures ∧ NamesDiffer rule.captures
      ∧ ∀ q ∈ patterns.getD [], ∃ m, inner m = .accepted q := by
  rcases Form.check_eq_accepted h with ⟨_, _, h⟩
  rcases Verdict.seqLeft_eq_accepted_iff.mp h with ⟨h, _⟩
  rcases Verdict.seq_eq_accepted_iff.mp h with ⟨_, patterns, hrule, hpatterns, rfl⟩
  rcases Verdict.map_eq_accepted_iff.mp hrule with ⟨rule, hchecked, rfl⟩
  rcases namesDiffer_of_checkBlockRule hchecked with ⟨hopening, hclosing, hcaptures⟩
  refine ⟨rule, patterns, rfl, hopening, hclosing, hcaptures, ?_⟩
  rcases Form.optional_eq_accepted hpatterns with rfl | ⟨ps, m, rfl, hps⟩
  · intro q hq
    cases hq
  · exact Site.list_eq_accepted hps

theorem wellFormed_of_checkMatching {s : Site} {p : Pattern} (nesting : Nat)
    (h : checkMatching Grammar.assembly s = .accepted p) : p.WellFormed nesting := by
  rcases Form.check_eq_accepted h with ⟨_, _, h⟩
  rcases Verdict.seqLeft_eq_accepted_iff.mp h with ⟨h, _⟩
  rcases Verdict.map_eq_accepted_iff.mp h with ⟨rule, hrule, rfl⟩
  simp only [Verdict.seq_eq_accepted_iff, Verdict.map_eq_accepted_iff] at hrule
  rcases hrule with ⟨_, captures, ⟨_, regex, ⟨name, _, rfl⟩, _, rfl⟩, hcaptures, rfl⟩
  exact (wellFormed_matching nesting).mpr (namesDiffer_of_optional hcaptures)

theorem wellFormed_of_checkReference {s : Site} {p : Pattern} (nesting : Nat)
    (h : checkReference Grammar.assembly s = .accepted p) : p.WellFormed nesting := by
  rcases Form.check_eq_accepted h with ⟨_, _, h⟩
  rcases Verdict.seqLeft_eq_accepted_iff.mp h with ⟨h, _⟩
  rcases Verdict.map_eq_accepted_iff.mp h with ⟨target, _, rfl⟩
  exact wellFormed_reference target nesting

/-- An accepted pattern was accepted in one of the three forms. -/
theorem checkPattern_cases {nesting : Nat} {opened : List Nat} {s : Site} {p : Pattern}
    (h : checkPattern Grammar.assembly nesting opened s = .accepted p) :
    (∃ steps, checkMatching Grammar.assembly (s.labelled steps) = .accepted p)
      ∨ (∃ steps, checkReference Grammar.assembly (s.labelled steps) = .accepted p)
      ∨ ∃ n opened steps, nesting = n + 1
        ∧ checkBlock Grammar.assembly (checkPattern Grammar.assembly n opened)
          (s.labelled steps) = .accepted p := by
  have hgiven : Grammar.assembly.patternGiven s.value = none := rfl
  unfold checkPattern at h
  rw [hgiven] at h
  dsimp only at h
  split at h
  · split at h
    · exact Or.inl ⟨_, h⟩
    · exact Or.inr (Or.inl ⟨_, h⟩)
    · cases nesting with
      | zero => cases h
      | succ n =>
          dsimp only at h
          split at h
          · cases h
          · exact Or.inr (Or.inr ⟨n, _, _, rfl, h⟩)
  · cases h

theorem wellFormed_of_checkPattern {nesting : Nat} {opened : List Nat} {s : Site}
    {p : Pattern} (h : checkPattern Grammar.assembly nesting opened s = .accepted p) :
    p.WellFormed nesting := by
  induction nesting generalizing opened s p with
  | zero =>
      rcases checkPattern_cases h with ⟨m, hm⟩ | ⟨m, hm⟩ | ⟨n, _, m, hn, _⟩
      · exact wellFormed_of_checkMatching _ hm
      · exact wellFormed_of_checkReference _ hm
      · cases hn
  | succ nesting ih =>
      rcases checkPattern_cases h with ⟨m, hm⟩ | ⟨m, hm⟩ | ⟨n, inside, m, hn, hm⟩
      · exact wellFormed_of_checkMatching _ hm
      · exact wellFormed_of_checkReference _ hm
      · cases hn
        rcases block_of_checkBlock hm with ⟨rule, patterns, rfl, hopening, hclosing, hcaptures,
          hpatterns⟩
        refine ⟨hopening, hclosing, hcaptures, fun q hq => ?_⟩
        rcases hpatterns q hq with ⟨m, hm⟩
        exact ih hm

theorem WellFormed.unmarked {nesting : Nat} {p : Pattern} (h : p.WellFormed nesting) :
    p.unmarked.WellFormed nesting := by
  induction nesting generalizing p with
  | zero =>
      cases p with
      | matching rule => exact h
      | block rule patterns => cases h
      | reference target => exact wellFormed_reference _ _
  | succ nesting ih =>
      cases p with
      | matching rule => exact h
      | block rule patterns =>
          cases patterns with
          | none => exact h
          | some ps =>
              rcases h with ⟨hopening, hclosing, hcaptures, hpatterns⟩
              rw [unmarked_block]
              refine ⟨hopening, hclosing, hcaptures, fun q hq => ?_⟩
              rcases List.mem_map.mp hq with ⟨p, hp, rfl⟩
              exact ih (hpatterns p hp)
      | reference target => exact wellFormed_reference _ _

end Pattern

namespace Grammar

/-- Grammars that some value or some text describes. -/
def IsRead (g : Grammar) : Prop :=
  (∃ v, Grammar.ofValue v = .ok g) ∨ ∃ format s, Grammar.ofText format s = .ok g

theorem toExcept_eq_ok {α : Type} {v : Verdict α} {a : α} (h : v.toExcept = .ok a) :
    v = .accepted a := by
  cases v with
  | accepted b =>
      cases h
      rfl
  | rejected ps => cases h

/-- The grammar that a value describes is well formed. -/
theorem wellFormed_of_ofValue {v : Value} {g : Grammar} (h : Grammar.ofValue v = .ok g) :
    g.WellFormed := by
  have haccepted := toExcept_eq_ok h
  unfold checkGrammar at haccepted
  rcases Form.check_eq_accepted haccepted with ⟨_, _, h⟩
  rcases Verdict.seqLeft_eq_accepted_iff.mp h with ⟨h, _⟩
  simp only [Verdict.seq_eq_accepted_iff, Verdict.map_eq_accepted_iff] at h
  rcases h with ⟨_, repository, ⟨_, patterns, ⟨header, _, rfl⟩, hpatterns, rfl⟩, hrepository,
    rfl⟩
  have htop : ∀ p ∈ patterns.getD [], p.WellFormed maxNesting := by
    rcases Form.optional_eq_accepted hpatterns with rfl | ⟨ps, s, rfl, hps⟩
    · intro p hp
      cases hp
    · intro p hp
      rcases Site.list_eq_accepted hps p hp with ⟨m, hm⟩
      exact Pattern.wellFormed_of_checkPattern hm
  rcases Form.optional_eq_accepted hrepository with rfl | ⟨es, s, rfl, hes⟩
  · exact ⟨namesDiffer_none, htop, fun e he => nomatch he⟩
  · rcases Site.mapping_eq_accepted hes with ⟨hnames, hall⟩
    refine ⟨hnames, htop, fun e he => ?_⟩
    rcases hall e he with ⟨m, hm⟩
    exact Pattern.wellFormed_of_checkPattern hm

theorem IsRead.wellFormed {g : Grammar} (h : g.IsRead) : g.WellFormed := by
  rcases h with ⟨v, hv⟩ | ⟨format, s, hs⟩
  · exact wellFormed_of_ofValue hv
  · unfold Grammar.ofText at hs
    cases hread : format.read s with
    | error e =>
        rw [hread] at hs
        cases hs
    | ok v =>
        rw [hread] at hs
        simp only [bind, Except.bind] at hs
        split at hs
        · cases hv : Grammar.ofValue v with
          | error ps =>
              rw [hv] at hs
              cases hs
          | ok g' =>
              rw [hv] at hs
              cases hs
              exact wellFormed_of_ofValue hv
        · cases hs

theorem WellFormed.unmarkIncludes {g : Grammar} (h : g.WellFormed) :
    g.unmarkIncludes.WellFormed := by
  have hnames := h.names
  refine ⟨?_, ?_, ?_⟩
  · rw [NamesDiffer] at hnames ⊢
    have heq : g.unmarkIncludes.names = g.names := names_unmarkIncludes g
    rw [Grammar.names, Grammar.names, Grammar.entries, Grammar.entries] at heq
    rw [heq]
    exact hnames
  · intro p hp
    rw [topLevel_unmarkIncludes] at hp
    rcases List.mem_map.mp hp with ⟨q, hq, rfl⟩
    exact (h.topLevel q hq).unmarked
  · intro e he
    rw [entries_unmarkIncludes] at he
    rcases List.mem_map.mp he with ⟨d, hd, rfl⟩
    exact (h.entries d hd).unmarked

end Grammar
end TextMate
