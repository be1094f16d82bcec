import Mathlib.Data.List.Basic

/-!
# Work on each of a list

Work that may fail is done for the members of a list one after the other.  It
succeeds exactly where it does for each of them.
-/

namespace TextMate

variable {α β ε : Type} {f f' : α → Except ε β} {as : List α} {bs : List β} {e : ε}

theorem ok_bind (a : α) (k : α → Except ε β) : (Except.ok a >>= k) = k a := rfl

theorem mapM_eq_ok_iff : as.mapM f = .ok bs ↔ as.map f = bs.map .ok := by
  induction as generalizing bs with
  | nil => cases bs <;> simp [pure, Except.pure]
  | cons a as ih =>
      have hcons : (a :: as).mapM f = .ok bs ↔
          ∃ first rest, f a = .ok first ∧ as.mapM f = .ok rest ∧ bs = first :: rest := by
        rw [List.mapM_cons]
        cases f a <;> cases as.mapM f <;> simp [bind, Except.bind, pure, Except.pure, eq_comm]
      rw [hcons, List.map_cons]
      simp only [ih]
      cases bs <;> simp

theorem mapM_eq_ok_map {g : α → β} (h : ∀ a ∈ as, f a = .ok (g a)) :
    as.mapM f = .ok (as.map g) := by
  rw [mapM_eq_ok_iff, List.map_map]
  exact List.map_congr_left h

theorem ok_of_mapM_eq_ok (h : as.mapM f = .ok bs) : ∀ a ∈ as, ∃ b, f a = .ok b := by
  intro a ha
  have hmem : f a ∈ bs.map Except.ok := by
    rw [← mapM_eq_ok_iff.mp h]
    exact List.mem_map_of_mem ha
  rcases List.mem_map.mp hmem with ⟨b, _, hb⟩
  exact ⟨b, hb.symm⟩

theorem exists_mapM_eq_ok (h : ∀ a ∈ as, ∃ b, f a = .ok b) : ∃ bs, as.mapM f = .ok bs := by
  induction as with
  | nil => exact ⟨[], rfl⟩
  | cons a as ih =>
      rcases h a List.mem_cons_self with ⟨b, hfirst⟩
      rcases ih fun a' ha' => h a' (List.mem_cons_of_mem a ha') with ⟨bs, hrest⟩
      refine ⟨b :: bs, ?_⟩
      rw [List.mapM_cons, hfirst, hrest]
      rfl

theorem mapM_congr_of_mem (h : ∀ a ∈ as, f a = f' a) : as.mapM f = as.mapM f' := by
  induction as with
  | nil => rfl
  | cons a as ih =>
      rw [List.mapM_cons, List.mapM_cons, h a List.mem_cons_self,
        ih fun b hb => h b (List.mem_cons_of_mem a hb)]

/-- Where one failure is all that can happen, the work fails so if it does for one of the list. -/
theorem mapM_of_one_failure (h : ∀ a ∈ as, (∃ b, f a = .ok b) ∨ f a = .error e) :
    (∀ a ∈ as, ∃ b, f a = .ok b) ∨ (∃ a ∈ as, f a = .error e) ∧ as.mapM f = .error e := by
  induction as with
  | nil => exact Or.inl (by simp)
  | cons a as ih =>
      rw [List.mapM_cons]
      rcases h a List.mem_cons_self with ⟨b, hfirst⟩ | hfirst
      · rcases ih fun a' ha' => h a' (List.mem_cons_of_mem a ha') with
          hok | ⟨⟨a', ha', hfail⟩, hrest⟩
        · apply Or.inl
          intro a' ha'
          rcases List.mem_cons.mp ha' with rfl | ha'
          · exact ⟨b, hfirst⟩
          · exact hok a' ha'
        · rw [hfirst, hrest]
          exact Or.inr ⟨⟨a', List.mem_cons_of_mem a ha', hfail⟩, rfl⟩
      · rw [hfirst]
        exact Or.inr ⟨⟨a, List.mem_cons_self, hfirst⟩, rfl⟩

end TextMate
