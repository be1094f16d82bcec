import Mathlib.Data.List.Forall2
import Mathlib.Data.List.Perm.Subperm
import TextMate.Schema.Site

/-!
# Names of mappings

A mapping keeps the last value under each name, at the place of the first.  So
its names are different, its entries are given ones, and entries with different
names are all kept.
-/

namespace TextMate
namespace Schema

namespace Site

variable {α β : Type}

theorem setNamed_of_not_mem {acc : List (String × α)} {name : String}
    (h : name ∉ acc.map (·.1)) (a : α) : setNamed acc name a = acc ++ [(name, a)] := by
  have hno : (acc.any fun e => e.1 == name) = false := by
    rw [List.any_eq_false]
    intro e he heq
    exact h (List.mem_map.mpr ⟨e, he, by simpa using heq⟩)
  simp [setNamed, hno]

theorem map_fst_setNamed_of_mem {acc : List (String × α)} {name : String}
    (h : name ∈ acc.map (·.1)) (a : α) :
    (setNamed acc name a).map (·.1) = acc.map (·.1) := by
  have hyes : (acc.any fun e => e.1 == name) = true := by
    rcases List.mem_map.mp h with ⟨e, he, heq⟩
    exact List.any_eq_true.mpr ⟨e, he, by simpa using heq⟩
  rw [setNamed, if_pos hyes, List.map_map]
  refine List.map_congr_left fun e _ => ?_
  simp only [Function.comp_apply]
  split
  · rename_i heq
    exact (by simpa using heq : e.1 = name).symm
  · rfl

theorem nodup_setNamed {acc : List (String × α)} (h : (acc.map (·.1)).Nodup) (name : String)
    (a : α) : ((setNamed acc name a).map (·.1)).Nodup := by
  by_cases hmem : name ∈ acc.map (·.1)
  · rw [map_fst_setNamed_of_mem hmem]
    exact h
  · rw [setNamed_of_not_mem hmem, List.map_append, List.nodup_append]
    refine ⟨h, by simp, ?_⟩
    intro x hx y hy heq
    rw [List.map_singleton, List.mem_singleton] at hy
    rw [heq, hy] at hx
    exact hmem hx

theorem nodup_namedOf (es : List (String × α)) : ((namedOf es).map (·.1)).Nodup := by
  have hfold : ∀ es acc : List (String × α), (acc.map (·.1)).Nodup →
      ((es.foldl (fun acc e => setNamed acc e.1 e.2) acc).map (·.1)).Nodup := by
    intro es
    induction es with
    | nil =>
        intro acc h
        exact h
    | cons e es ih =>
        intro acc h
        exact ih _ (nodup_setNamed h e.1 e.2)
  exact hfold es [] List.nodup_nil

theorem namedOf_of_nodup {es : List (String × α)} (h : (es.map (·.1)).Nodup) :
    namedOf es = es := by
  have hfold : ∀ es acc : List (String × α), ((acc ++ es).map (·.1)).Nodup →
      es.foldl (fun acc e => setNamed acc e.1 e.2) acc = acc ++ es := by
    intro es
    induction es with
    | nil =>
        intro acc _
        simp
    | cons e es ih =>
        intro acc hnodup
        have hnew : e.1 ∉ acc.map (·.1) := by
          rw [List.map_append, List.nodup_append] at hnodup
          intro hmem
          exact hnodup.2.2 e.1 hmem e.1 (by simp) rfl
        rw [List.foldl_cons, setNamed_of_not_mem hnew, ih _ (by simpa using hnodup)]
        simp
  exact hfold es [] h

theorem setNamed_ne_nil (acc : List (String × α)) (name : String) (a : α) :
    setNamed acc name a ≠ [] := by
  rw [setNamed]
  split
  next h =>
    cases acc with
    | nil => cases h
    | cons e acc => exact List.cons_ne_nil _ _
  next => exact List.append_ne_nil_of_right_ne_nil _ (List.cons_ne_nil _ _)

theorem namedOf_ne_nil {es : List (String × α)} (h : es ≠ []) : namedOf es ≠ [] := by
  rcases List.eq_nil_or_concat es with rfl | ⟨es, e, rfl⟩
  · exact absurd rfl h
  · rw [namedOf, List.concat_eq_append, List.foldl_append]
    exact setNamed_ne_nil _ _ _

theorem mem_setNamed {acc : List (String × α)} {name : String} {a : α} {e : String × α}
    (h : e ∈ setNamed acc name a) : e ∈ acc ∨ e = (name, a) := by
  unfold setNamed at h
  split at h
  · rcases List.mem_map.mp h with ⟨d, hd, rfl⟩
    split
    · exact Or.inr rfl
    · exact Or.inl hd
  · rcases List.mem_append.mp h with h | h
    · exact Or.inl h
    · exact Or.inr (List.mem_singleton.mp h)

theorem mem_of_mem_namedOf {es : List (String × α)} {e : String × α} (h : e ∈ namedOf es) :
    e ∈ es := by
  have hfold : ∀ es acc : List (String × α),
      e ∈ es.foldl (fun acc e => setNamed acc e.1 e.2) acc → e ∈ acc ∨ e ∈ es := by
    intro es
    induction es with
    | nil =>
        intro acc h
        exact Or.inl h
    | cons d es ih =>
        intro acc h
        rcases ih _ h with h | h
        · rcases mem_setNamed h with h | rfl
          · exact Or.inl h
          · exact Or.inr List.mem_cons_self
        · exact Or.inr (List.mem_cons_of_mem _ h)
  rcases hfold es [] h with h | h
  · cases h
  · exact h

/-- A list without repetition fills a list of the same length only if that has none either. -/
theorem nodup_of_subset_of_length_eq {as bs : List α} (h : as.Nodup) (hsub : as ⊆ bs)
    (hlength : as.length = bs.length) : bs.Nodup := by
  have hperm := (List.subperm_of_subset h hsub).perm_of_length_le (Nat.le_of_eq hlength.symm)
  exact hperm.nodup_iff.mp h

theorem nodup_of_length_namedOf {es : List (String × α)}
    (h : (namedOf es).length = es.length) : (es.map (·.1)).Nodup := by
  have hsub : (namedOf es).map (·.1) ⊆ es.map (·.1) := by
    intro name hname
    rcases List.mem_map.mp hname with ⟨e, he, rfl⟩
    exact List.mem_map_of_mem (mem_of_mem_namedOf he)
  exact nodup_of_subset_of_length_eq (nodup_namedOf es) hsub (by simpa using h)

/-- As many entries of different names are the last ones of their names only for themselves. -/
theorem namedOf_eq_iff {es ds : List (String × α)} (hnames : (ds.map (·.1)).Nodup)
    (hlength : es.length = ds.length) : namedOf es = ds ↔ es = ds := by
  constructor
  · intro heq
    have hkept : (namedOf es).length = es.length := by rw [heq, hlength]
    rw [← heq, namedOf_of_nodup (nodup_of_length_namedOf hkept)]
  · rintro rfl
    exact namedOf_of_nodup hnames

theorem setNamed_map (f : α → β) (acc : List (String × α)) (name : String) (a : α) :
    setNamed (acc.map fun e => (e.1, f e.2)) name (f a) =
      (setNamed acc name a).map fun e => (e.1, f e.2) := by
  simp only [setNamed, List.any_map, Function.comp_def]
  split
  · rw [List.map_map, List.map_map]
    refine List.map_congr_left fun e _ => ?_
    simp only [Function.comp_apply]
    split <;> rfl
  · rw [List.map_append]
    rfl

theorem namedOf_map (f : α → β) (es : List (String × α)) :
    namedOf (es.map fun e => (e.1, f e.2)) = (namedOf es).map fun e => (e.1, f e.2) := by
  have hfold : ∀ es acc : List (String × α),
      (es.map fun e => (e.1, f e.2)).foldl (fun acc e => setNamed acc e.1 e.2)
          (acc.map fun e => (e.1, f e.2)) =
        (es.foldl (fun acc e => setNamed acc e.1 e.2) acc).map fun e => (e.1, f e.2) := by
    intro es
    induction es with
    | nil =>
        intro acc
        rfl
    | cons e es ih =>
        intro acc
        rw [List.map_cons, List.foldl_cons, List.foldl_cons, setNamed_map, ih]
  exact hfold es []

theorem mem_of_find?_name {κ : Type} [BEq κ] [LawfulBEq κ] {es : List (κ × α)} {name : κ} {a : α}
    (h : (es.find? fun e => e.1 == name).map (·.2) = some a) : (name, a) ∈ es := by
  rcases Option.map_eq_some_iff.mp h with ⟨e, he, rfl⟩
  have hname := List.find?_some he
  rw [beq_iff_eq] at hname
  exact hname ▸ List.mem_of_find?_eq_some he

theorem find?_name_eq_some_iff {κ : Type} [BEq κ] [LawfulBEq κ] {es : List (κ × α)}
    (hdiffer : (es.map (·.1)).Nodup) {name : κ} {a : α} :
    (es.find? fun e => e.1 == name).map (·.2) = some a ↔ (name, a) ∈ es := by
  induction es with
  | nil => simp
  | cons e es ih =>
      rw [List.map_cons, List.nodup_cons] at hdiffer
      rw [List.find?_cons, List.mem_cons]
      by_cases he : e.1 = name
      · have hnone : (name, a) ∉ es := by
          intro hmem
          exact hdiffer.1 (he ▸ List.mem_map.mpr ⟨_, hmem, rfl⟩)
        rcases e with ⟨key, b⟩
        simp only at he
        simp [he, hnone, eq_comm]
      · have hne : (name, a) ≠ e := by
          rintro rfl
          exact he rfl
        rw [beq_false_of_ne he, ih hdiffer.2]
        simp [hne]

/-- Entries with different names that come in the same order are equal if those of the one
mapping are among those of the other. -/
theorem eq_of_names_eq_of_subset {es ds : List (String × α)}
    (hnames : es.map (·.1) = ds.map (·.1)) (hdiffer : (ds.map (·.1)).Nodup)
    (hsubset : ∀ e ∈ es, e ∈ ds) : es = ds := by
  induction es generalizing ds with
  | nil =>
      rw [List.map_nil, eq_comm, List.map_eq_nil_iff] at hnames
      exact hnames.symm
  | cons e es ih =>
      cases ds with
      | nil => cases hnames
      | cons d ds =>
          rw [List.map_cons, List.map_cons, List.cons.injEq] at hnames
          rw [List.map_cons, List.nodup_cons] at hdiffer
          have hhead : e = d := by
            rcases List.mem_cons.mp (hsubset e List.mem_cons_self) with h | h
            · exact h
            · exact absurd (List.mem_map.mpr ⟨e, h, hnames.1⟩) hdiffer.1
          have htail : ∀ c ∈ es, c ∈ ds := by
            intro c hc
            rcases List.mem_cons.mp (hsubset c (List.mem_cons_of_mem _ hc)) with rfl | h
            · -- the name of the first entry does not occur again
              refine absurd ?_ hdiffer.1
              rw [← hnames.2]
              exact List.mem_map.mpr ⟨c, hc, rfl⟩
            · exact h
          rw [hhead, ih hnames.2 hdiffer.2 htail]

section Pairs

variable {R : α → β → Prop} {xs : List (String × α)} {ys : List (String × β)}

/-- Entries of the same names that go together still do when two more that go together are
set. -/
theorem forall₂_setNamed (h : List.Forall₂ (fun x y => x.1 = y.1 ∧ R x.2 y.2) xs ys)
    (name : String) {a : α} {b : β} (hab : R a b) :
    List.Forall₂ (fun x y => x.1 = y.1 ∧ R x.2 y.2) (setNamed xs name a) (setNamed ys name b) := by
  have hany : (xs.any fun e => e.1 == name) = ys.any fun e => e.1 == name := by
    clear hab
    induction h with
    | nil => rfl
    | cons hxy _ ih => rw [List.any_cons, List.any_cons, ih, hxy.1]
  rw [setNamed, setNamed, hany]
  split
  · refine List.forall₂_map_left_iff.mpr (List.forall₂_map_right_iff.mpr (h.imp ?_))
    rintro x y ⟨hname, hxy⟩
    rw [hname]
    split
    · exact ⟨rfl, hab⟩
    · exact ⟨hname, hxy⟩
  · exact List.rel_append h (.cons ⟨rfl, hab⟩ .nil)

/-- Entries of the same names that go together still do when only the last of each name is
kept. -/
theorem forall₂_namedOf (h : List.Forall₂ (fun x y => x.1 = y.1 ∧ R x.2 y.2) xs ys) :
    List.Forall₂ (fun x y => x.1 = y.1 ∧ R x.2 y.2) (namedOf xs) (namedOf ys) := by
  have hfold : ∀ (xs' : List (String × α)) (ys' : List (String × β)),
      List.Forall₂ (fun x y => x.1 = y.1 ∧ R x.2 y.2) xs' ys' →
        List.Forall₂ (fun x y => x.1 = y.1 ∧ R x.2 y.2)
          (xs.foldl (fun acc e => setNamed acc e.1 e.2) xs')
          (ys.foldl (fun acc e => setNamed acc e.1 e.2) ys') := by
    induction h with
    | nil => exact fun _ _ h => h
    | @cons x y _ _ hxy _ ih =>
        intro xs' ys' h
        refine ih _ _ ?_
        show List.Forall₂ _ (setNamed xs' x.1 x.2) (setNamed ys' y.1 y.2)
        rw [hxy.1]
        exact forall₂_setNamed h y.1 hxy.2
  exact hfold [] [] .nil

end Pairs

end Site

end Schema
end TextMate
