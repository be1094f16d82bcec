import TextMate.Proofs.Grammar.Place
import TextMate.Proofs.Schema.Named

/-!
# When grammars are the same

The test by which patterns and grammars are compared.  Patterns pass it exactly
if they are equal.  Grammars may list their repositories in different orders; if
the names come in the same order and differ, the test tells equal grammars from
all others.
-/

namespace TextMate

namespace Pattern

/-- Lists pass the test exactly if they are equal, if that holds of the patterns of one of them. -/
theorem beqList_iff {ps : List Pattern} (h : ∀ p ∈ ps, ∀ q, beq p q = true ↔ p = q)
    (qs : List Pattern) : beqList ps qs = true ↔ ps = qs := by
  induction ps generalizing qs with
  | nil => cases qs <;> simp [beqList]
  | cons p ps ih =>
      cases qs with
      | nil => simp [beqList]
      | cons q qs =>
          rw [beqList, Bool.and_eq_true, h p List.mem_cons_self,
            ih fun p hp => h p (List.mem_cons_of_mem _ hp), List.cons.injEq]

theorem beq_iff (p q : Pattern) : beq p q = true ↔ p = q := by
  induction p using inductionOn generalizing q with
  | matching rule => cases q <;> simp [beq]
  | reference target => cases q <;> simp [beq]
  | absent rule =>
      cases q with
      | block other qs => cases qs <;> simp [beq, beqOption]
      | _ => simp [beq]
  | block rule ps ih =>
      cases q with
      | block other qs =>
          cases qs with
          | none => simp [beq, beqOption]
          | some qs => simp [beq, beqOption, beqList_iff ih]
      | _ => simp [beq]

instance : LawfulBEq Pattern where
  eq_of_beq h := (beq_iff _ _).mp h
  rfl := (beq_iff _ _).mpr rfl

end Pattern

namespace Grammar

theorem rule?_eq_some_iff {g : Grammar} (hdiffer : g.names.Nodup) {name : String} {p : Pattern} :
    g.rule? name = some p ↔ (name, p) ∈ g.entries :=
  Schema.Site.find?_name_eq_some_iff hdiffer

/-- Grammars with the same names in the same order are the same exactly if they are equal. -/
theorem same_iff_eq {g h : Grammar} (hnames : g.names = h.names) (hdiffer : h.names.Nodup) :
    g.same h = true ↔ g = h := by
  unfold same
  simp only [Bool.and_eq_true, beq_iff_eq, List.all_eq_true]
  constructor
  · rintro ⟨⟨⟨⟨hheader, hpatterns⟩, hsome⟩, _⟩, hentries⟩
    have heq : g.entries = h.entries := by
      apply Schema.Site.eq_of_names_eq_of_subset hnames hdiffer
      intro e he
      exact (rule?_eq_some_iff hdiffer).mp (hentries e he)
    rcases g with ⟨header, patterns, repository⟩
    rcases h with ⟨header', patterns', repository'⟩
    cases hheader
    cases hpatterns
    cases repository <;> cases repository' <;> simp_all [entries]
  · rintro rfl
    refine ⟨⟨⟨⟨rfl, rfl⟩, rfl⟩, rfl⟩, fun e he => ?_⟩
    exact (rule?_eq_some_iff hdiffer).mpr he

end Grammar
end TextMate
