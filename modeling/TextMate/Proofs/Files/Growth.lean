import TextMate.Proofs.Files.Follow

/-!
# Stores that grow

Making directories and writing a new file leave everything where it is and add
entries at certain places.  Paths that lead somewhere go on leading there, and a
closed store stays closed.
-/

namespace TextMate
namespace Files

def Place.IsOnWayTo (q r : Place) : Prop :=
  q.base = r.base ∧ q.names <+: r.names

namespace Store

/-- Nothing that was there is changed, and only at certain places something is new. -/
structure Grows (s s' : Store) (new : Place → Prop) : Prop where
  keeps : ∀ q, s.get? q ≠ none → s'.get? q = s.get? q
  adds : ∀ q, ¬ new q → s'.get? q = s.get? q

variable {s s' s'' : Store} {new : Place → Prop} {p : Path} {q r : Place}

namespace Grows

theorem refl (s : Store) (new : Place → Prop) : s.Grows s new := by
  constructor
  · intro q _
    rfl
  · intro q _
    rfl

theorem trans (h : s.Grows s' new) (h' : s'.Grows s'' new) : s.Grows s'' new := by
  constructor
  · intro q hq
    rw [h'.keeps q (by rw [h.keeps q hq]; exact hq), h.keeps q hq]
  · intro q hq
    rw [h'.adds q hq, h.adds q hq]

theorem mono {new' : Place → Prop} (h : s.Grows s' new) (himp : ∀ q, new q → new' q) :
    s.Grows s' new' := by
  constructor
  · exact h.keeps
  · intro q hq
    exact h.adds q fun hnew => hq (himp q hnew)

theorem get?_eq_some (h : s.Grows s' new) {entry : Entry} (hq : s.get? q = some entry) :
    s'.get? q = some entry := by
  rw [h.keeps q (by simp [hq]), hq]

theorem follow (h : s.Grows s' new) {names : List String} (hfollow : s.follow q names = .ok r) :
    s'.follow q names = .ok r :=
  follow_of_directories (fun _ hq => h.get?_eq_some hq) hfollow

theorem place (h : s.Grows s' new) (hplace : s.place p = .ok q) : s'.place p = .ok q :=
  place_eq_ok_iff.mpr (h.follow (place_eq_ok_iff.mp hplace))

theorem find?_eq_some (h : s.Grows s' new) {entry : Entry} (hfind : s.find? p = some entry) :
    s'.find? p = some entry := by
  rcases find?_eq_some_iff.mp hfind with ⟨q, hplace, hget⟩
  exact find?_eq_some_iff.mpr ⟨q, h.place hplace, h.get?_eq_some hget⟩

theorem contains (h : s.Grows s' new) (hcontains : s.contains p = true) :
    s'.contains p = true := by
  rcases contains_iff.mp hcontains with ⟨entry, hfind⟩
  exact contains_iff.mpr ⟨entry, h.find?_eq_some hfind⟩

theorem read_eq (h : s.Grows s' new) (hcontains : s.contains p = true) : s'.read p = s.read p := by
  rcases contains_iff.mp hcontains with ⟨entry, hfind⟩
  have hfind' := h.find?_eq_some hfind
  cases entry with
  | directory => rw [read_of_directory hfind, read_of_directory hfind']
  | file content => rw [read_of_find? hfind, read_of_find? hfind']

theorem isSettled (h : s.Grows s' new) (hsettled : s.IsSettled p) : s'.IsSettled p := by
  rcases hsettled with hcontains | hplain
  · exact Or.inl (h.contains hcontains)
  · exact Or.inr hplain

theorem home_eq (h : s.Grows s' new) (hclosed : s.IsClosed) (hclosed' : s'.IsClosed)
    (hsettled : s.IsSettled p) : s'.home p = s.home p := by
  rcases hsettled with hcontains | hplain
  · rcases contains_iff.mp hcontains with ⟨entry, hfind⟩
    rcases find?_eq_some_iff.mp hfind with ⟨q, hplace, _⟩
    rw [home_eq_of_place hplace, home_eq_of_place (h.place hplace)]
  · rw [hclosed.home_plain hplain, hclosed'.home_plain hplain]

end Grows

theorem Grows.find?_join (h : s.Grows s' new) (hshows : s.Shows p q) (hshows' : s'.Shows p q)
    {name : String} (hname : IsName name) (hold : ¬ new (q.under name)) :
    s'.find? (p.join name) = s.find? (p.join name) := by
  rw [hshows name hname, hshows' name hname, h.adds _ hold]

/-!
## New entries
-/

theorem grows_insert {entry : Entry} (hnone : s.get? q = none) :
    s.Grows (s.insert q entry) (· = q) := by
  constructor
  · intro r hr
    apply get?_insert_of_ne
    intro heq
    rw [heq, hnone] at hr
    exact hr rfl
  · intro r hr
    exact get?_insert_of_ne s entry hr

theorem IsClosed.insert (h : s.IsClosed) {name : String} {entry : Entry}
    (hnone : s.get? (q.under name) = none) (hdirectory : s.get? q = some .directory) :
    (s.insert (q.under name) entry).IsClosed := by
  have hgrows := @grows_insert s _ entry hnone
  intro r other hr
  by_cases heq : r.under other = q.under name
  · rw [(Place.under_inj heq).1]
    exact hgrows.get?_eq_some hdirectory
  · rw [hgrows.adds _ heq] at hr
    exact hgrows.get?_eq_some (h r other hr)

theorem makeDirectory_eq_ok_iff :
    s.makeDirectory p = .ok s' ↔
      ∃ q, s.place p = .ok q ∧ s.get? q = none ∧ s' = s.insert q .directory := by
  unfold makeDirectory
  cases hplace : s.place p with
  | error e => simp [bind, Except.bind]
  | ok q =>
      simp only [bind, Except.bind, Except.ok.injEq, exists_eq_left']
      cases hget : s.get? q with
      | none => simp [pure, Except.pure, eq_comm]
      | some entry => simp [throw, throwThe, MonadExceptOf.throw]

theorem names_ne_nil_of_get?_eq_none (hnone : s.get? q = none) : q.names ≠ [] := by
  intro hnil
  rw [get?, hnil] at hnone
  cases hnone

theorem find?_of_provideDirectory (h : s.provideDirectory p = .ok s') :
    s'.find? p = some .directory := by
  unfold provideDirectory at h
  split at h
  · rename_i made hmade
    cases h
    rcases makeDirectory_eq_ok_iff.mp hmade with ⟨q, hplace, hnone, rfl⟩
    have hgrows := @grows_insert s q .directory hnone
    rw [find?_eq_of_place (hgrows.place hplace)]
    exact get?_insert_self s q .directory (names_ne_nil_of_get?_eq_none hnone)
  · split at h
    · rename_i hdirectory
      cases h
      simpa [isDirectory] using hdirectory
    · cases h

theorem provideDirectory_eq_error {e : FileError} (h : s.provideDirectory p = .error e) :
    s.makeDirectory p = .error e ∧ s.isDirectory p = false := by
  unfold provideDirectory at h
  split at h
  · cases h
  · rename_i e' hmake
    split at h
    · cases h
    · rename_i hdirectory
      cases h
      exact ⟨hmake, by simpa using hdirectory⟩

theorem write_of_contains_eq_false (h : s.contains p = false) (content : List UInt8) :
    (∃ e, s.write p content = .error e) ∨
      ∃ q, s.place p = .ok q ∧ s.get? q = none ∧
        s.write p content = .ok (s.insert q (.file content)) := by
  unfold write
  cases hplace : s.place p with
  | error e => exact Or.inl ⟨e, rfl⟩
  | ok q =>
      apply Or.inr
      have hnone := get?_eq_none_of_place hplace h
      refine ⟨q, rfl, hnone, ?_⟩
      simp only [bind, Except.bind, hnone]
      rfl

/-!
## Making the directories of a path
-/

section Provide

variable (hclosed : s.IsClosed) (hplain : ".." ∉ p.names)
include hclosed hplain

theorem grows_of_provideDirectory (h : s.provideDirectory p = .ok s') :
    s'.IsClosed ∧ s.Grows s' fun q => q.IsOnWayTo ⟨p.base, p.names⟩ := by
  unfold provideDirectory at h
  split at h
  · rename_i made hmade
    cases h
    rcases makeDirectory_eq_ok_iff.mp hmade with ⟨q, hplace, hnone, rfl⟩
    have hq : q = ⟨p.base, p.names⟩ := by
      rw [← home_eq_of_place hplace, hclosed.home_plain hplain]
    constructor
    · have hstart : (⟨p.base, []⟩ : Place).names = [] := rfl
      rcases hclosed.eq_under_of_follow (Or.inl hstart) (place_eq_ok_iff.mp hplace) with
        hnil | ⟨above, name, rfl, habove⟩
      · have hbase : s.get? q = some .directory := by
          simp [get?, hnil]
        rw [hbase] at hnone
        cases hnone
      · exact hclosed.insert hnone habove
    · apply (grows_insert hnone).mono
      rintro r rfl
      rw [hq]
      exact ⟨rfl, List.prefix_refl _⟩
  · split at h
    · cases h
      exact ⟨hclosed, Grows.refl s _⟩
    · cases h

end Provide

/-- Making the directories of a path without `..` adds nothing but directories on the way. -/
theorem grows_provideFrom (base : Base) (names : List String) (hplain : ".." ∉ names) :
    ∀ s : Store, s.IsClosed → (s.provideFrom base names).1.IsClosed ∧
      s.Grows (s.provideFrom base names).1 fun q => q.IsOnWayTo ⟨base, names.reverse⟩ := by
  -- the directory above is made between two attempts
  induction names with
  | nil =>
      intro s hclosed
      exact ⟨hclosed, Grows.refl s _⟩
  | cons name above ih =>
      intro s hclosed
      have hspelled : ".." ∉ (name :: above).reverse := by
        rwa [List.mem_reverse]
      have habove : ".." ∉ above := by
        intro hmem
        exact hplain (List.mem_cons_of_mem _ hmem)
      rw [provideFrom]
      split
      · rename_i made hmade
        exact grows_of_provideDirectory (p := ⟨base, _⟩) hclosed hspelled hmade
      · split
        · rcases ih habove s hclosed with ⟨hclosed', hgrows⟩
          have hgrows' : s.Grows (s.provideFrom base above).1
              fun q => q.IsOnWayTo ⟨base, (name :: above).reverse⟩ := by
            apply hgrows.mono
            rintro q ⟨hbase, hprefix⟩
            constructor
            · exact hbase
            · rw [List.reverse_cons]
              exact hprefix.trans (List.prefix_append _ _)
          split
          · rename_i made e heq
            rw [heq] at hclosed' hgrows'
            exact ⟨hclosed', hgrows'⟩
          · rename_i made heq
            rw [heq] at hclosed' hgrows'
            split
            · rename_i last hlast
              rcases grows_of_provideDirectory (p := ⟨base, _⟩) hclosed' hspelled hlast with
                ⟨hclosed'', hgrows''⟩
              exact ⟨hclosed'', hgrows'.trans hgrows''⟩
            · exact ⟨hclosed', hgrows'⟩
        · exact ⟨hclosed, Grows.refl s _⟩

theorem provide_of_find? {entry : Entry} (h : s.find? p = some entry) :
    (s.provide p).1 = s ∧ (entry = .directory → (s.provide p).2 = none) := by
  rcases find?_eq_some_iff.mp h with ⟨q, hplace, hget⟩
  have hexists : s.makeDirectory p = .error ⟨.exists, p⟩ := by
    unfold makeDirectory
    rw [hplace]
    simp only [bind, Except.bind, hget]
    rfl
  unfold provide
  cases hnames : p.names.reverse with
  | nil => exact ⟨rfl, fun _ => rfl⟩
  | cons name above =>
      have hp : (⟨p.base, (name :: above).reverse⟩ : Path) = p := by
        rw [← hnames, List.reverse_reverse]
      rw [provideFrom, hp, provideDirectory, hexists, isDirectory, h]
      by_cases hdirectory : entry = .directory
      · simp [hdirectory]
      · simp [hdirectory]

theorem provide_of_contains (h : s.contains p = true) : (s.provide p).1 = s := by
  rcases contains_iff.mp h with ⟨entry, hfind⟩
  exact (provide_of_find? hfind).1

/-- Making the directories of a settled path adds nothing but directories on the way to its
home. -/
theorem grows_provide (hclosed : s.IsClosed) (hsettled : s.IsSettled p) :
    (s.provide p).1.IsClosed ∧ s.Grows (s.provide p).1 fun q => q.IsOnWayTo (s.home p) := by
  rcases hsettled with hcontains | hplain
  · rw [provide_of_contains hcontains]
    exact ⟨hclosed, Grows.refl s _⟩
  · have hplain' : ".." ∉ p.names.reverse := by
      rwa [List.mem_reverse]
    have h := grows_provideFrom p.base p.names.reverse hplain' s hclosed
    rw [List.reverse_reverse] at h
    rw [hclosed.home_plain hplain]
    exact h

theorem contains_of_contains_join {name : String} (hclosed : s.IsClosed) (hsettled : s.IsSettled p)
    (hname : IsName name) (h : (s.provide p).1.contains (p.join name) = true) :
    s.contains p = true := by
  rcases hsettled with hcontains | hplain
  · exact hcontains
  · rcases grows_provide hclosed (Or.inr hplain) with ⟨hclosed', hgrows⟩
    rcases place_of_contains_join hname h with ⟨q, hplace, hget⟩
    have hq : q = ⟨p.base, p.names⟩ := by
      rw [← home_eq_of_place hplace, hclosed'.home_plain hplain]
    rw [contains, shows_of_place hplace hget name hname, hgrows.adds] at h
    · have hdirectory := hclosed q name (Option.isSome_iff_ne_none.mp h)
      rw [hq, ← hclosed.find?_plain hplain] at hdirectory
      exact contains_iff.mpr ⟨_, hdirectory⟩
    · intro hway
      rw [hclosed.home_plain hplain, hq] at hway
      exact absurd hway.2.length_le (by simp [Place.under])

theorem find?_of_provideFrom {base : Base} {names : List String}
    (h : (s.provideFrom base names).2 = none) :
    (s.provideFrom base names).1.find? ⟨base, names.reverse⟩ = some .directory := by
  cases names with
  | nil => rfl
  | cons name above =>
      rw [provideFrom] at h ⊢
      split at h
      · rename_i hmade
        exact find?_of_provideDirectory hmade
      · split at h
        · rename_i hcause
          rw [if_pos hcause]
          split at h
          · cases h
          · split at h
            · rename_i hmade
              exact find?_of_provideDirectory hmade
            · cases h
        · cases h

theorem find?_of_provide (h : (s.provide p).2 = none) :
    (s.provide p).1.find? p = some .directory := by
  have hfind := find?_of_provideFrom h
  rw [List.reverse_reverse] at hfind
  exact hfind

/-- A directory that is missing with what is above it can be made once that is there. -/
theorem provideDirectory_eq_ok {base : Base} {names : List String} {name : String}
    {e : FileError} (hclosed : s.IsClosed) (hclosed' : s'.IsClosed)
    (hplain : ".." ∉ names ++ [name]) (hcause : e.cause = .notFound)
    (hmissing : s.makeDirectory ⟨base, names ++ [name]⟩ = .error e)
    (hgrows : s.Grows s' fun q => q.IsOnWayTo ⟨base, names⟩)
    (habove : s'.find? ⟨base, names⟩ = some .directory) :
    ∃ made, s'.provideDirectory ⟨base, names ++ [name]⟩ = .ok made := by
  rw [List.mem_append, List.mem_singleton, not_or] at hplain
  have hplain' : ".." ∉ names ++ [name] := by
    simpa using hplain
  have hnone : s.get? (Place.under ⟨base, names⟩ name) = none := by
    have hfollow := @IsClosed.follow_plain s hclosed base _ hplain'
    rcases hfollow with hok | ⟨_, hnone⟩
    · have hplace : s.place ⟨base, names ++ [name]⟩ = .ok ⟨base, names ++ [name]⟩ :=
        place_eq_ok_iff.mpr hok
      unfold makeDirectory at hmissing
      rw [hplace] at hmissing
      simp only [bind, Except.bind] at hmissing
      split at hmissing
      · cases hmissing
        cases hcause
      · cases hmissing
    · exact hnone
  -- what is new ends above the directory
  have hnone' : s'.get? (Place.under ⟨base, names⟩ name) = none := by
    rw [hgrows.adds, hnone]
    intro hway
    exact absurd hway.2.length_le (by simp [Place.under])
  have hplace : s'.place ⟨base, names ++ [name]⟩ = .ok (Place.under ⟨base, names⟩ name) := by
    rcases find?_eq_some_iff.mp habove with ⟨q, hq, hdirectory⟩
    have heq : q = ⟨base, names⟩ := by
      rw [← home_eq_of_place hq, hclosed'.home_plain hplain.1]
    rw [heq] at hq hdirectory
    rw [place_eq_ok_iff, follow_append, place_eq_ok_iff.mp hq]
    exact (follow_name_iff (Ne.symm hplain.2)).mpr ⟨hdirectory, rfl⟩
  exists s'.insert (Place.under ⟨base, names⟩ name) .directory
  unfold provideDirectory
  rw [makeDirectory_eq_ok_iff.mpr ⟨_, hplace, hnone', rfl⟩]

theorem provide_of_refused {e : FileError} (hclosed : s.IsClosed) (hsettled : s.IsSettled p)
    (h : (s.provide p).2 = some e) : (s.provide p).1 = s := by
  rcases hsettled with hcontains | hplain
  · exact provide_of_contains hcontains
  have hfrom : ∀ names, ".." ∉ names → (s.provideFrom p.base names).2 = some e →
      (s.provideFrom p.base names).1 = s := by
    intro names hnames hrefused
    induction names with
    | nil => rfl
    | cons name above ih =>
        have hplain' : ".." ∉ above.reverse ++ [name] := by
          simpa [not_or, and_comm] using hnames
        have habove : ".." ∉ above := fun hmem => hnames (List.mem_cons_of_mem _ hmem)
        rw [provideFrom] at hrefused ⊢
        split at hrefused
        · cases hrefused
        · rename_i e' hmissing
          split at hrefused
          · rename_i hcause
            rw [if_pos hcause]
            rw [List.reverse_cons] at hmissing
            split at hrefused
            · rename_i made e'' hstopped
              rw [hstopped] at ih
              exact ih habove hrefused
            · rename_i made hmade
              rcases grows_provideFrom p.base above habove s hclosed with ⟨hclosed', hgrows⟩
              have hdirectory := @find?_of_provideFrom s p.base above (by rw [hmade])
              rw [hmade] at hclosed' hgrows hdirectory
              rcases provideDirectory_eq_ok hclosed hclosed' hplain' (by simpa using hcause)
                (provideDirectory_eq_error hmissing).1 hgrows hdirectory with ⟨last, hlast⟩
              rw [← List.reverse_cons] at hlast
              rw [hlast] at hrefused
              cases hrefused
          · rename_i hcause
            rw [if_neg hcause]
  exact hfrom _ (by rwa [List.mem_reverse]) h

end Store
end Files
end TextMate
