import TextMate.Proofs.Files.Growth

/-!
# Saving files

A file is saved in two steps: the directories above it are made as far as they are
missing, and then it gets its content.  Directories are made only at places that the
path leads over and where nothing is.  So all that was there before stays as it is,
apart from what the file held.
-/

namespace TextMate
namespace Files

/-!
## Places on the way
-/

/-- Where a name leads from a place: `..` leads up, but not from a base. -/
def Place.next (q : Place) (name : String) : Place :=
  if name == ".." then ⟨q.base, q.names.dropLast⟩ else q.under name

namespace Path

def resolved (p : Path) : Place :=
  p.names.foldl Place.next ⟨p.base, []⟩

def Passes (p : Path) (q : Place) : Prop :=
  ∃ names, names <+: p.names ∧ (Path.mk p.base names).resolved = q

theorem passes_self (p : Path) : p.Passes p.resolved :=
  ⟨p.names, List.prefix_refl _, rfl⟩

theorem Passes.of_prefix {p : Path} {names : List String} {q : Place}
    (h : (Path.mk p.base names).Passes q) (hbegins : names <+: p.names) : p.Passes q := by
  rcases h with ⟨names', hbegins', hresolved⟩
  exact ⟨names', hbegins'.trans hbegins, hresolved⟩

theorem Passes.eq_or_parent {p : Path} {q : Place} (h : p.Passes q) :
    q = p.resolved ∨ p.parent.Passes q := by
  rcases h with ⟨names, hbegins, rfl⟩
  rcases List.eq_nil_or_concat p.names with hnil | ⟨init, last, hlast⟩
  · rw [hnil] at hbegins
    apply Or.inl
    rw [List.prefix_nil.mp hbegins, ← hnil]
  · rw [List.concat_eq_append] at hlast
    rw [hlast, List.prefix_concat_iff] at hbegins
    rcases hbegins with heq | habove
    · apply Or.inl
      rw [heq, ← hlast]
    · apply Or.inr
      refine ⟨names, ?_, rfl⟩
      rw [Path.parent, hlast, List.dropLast_concat]
      exact habove

theorem above_not_mem_resolved (p : Path) : ".." ∉ p.resolved.names := by
  have hfold : ∀ (names : List String) (q : Place), ".." ∉ q.names →
      ".." ∉ (names.foldl Place.next q).names := by
    intro names
    induction names with
    | nil =>
        intro q hq
        exact hq
    | cons name names ih =>
        intro q hq
        apply ih
        unfold Place.next
        split
        · intro hmem
          exact hq (List.dropLast_subset _ hmem)
        · rename_i hname
          intro hmem
          rcases List.mem_append.mp hmem with hmem | hmem
          · exact hq hmem
          · rw [List.mem_singleton] at hmem
            exact hname (by simp [← hmem])
  exact hfold p.names ⟨p.base, []⟩ List.not_mem_nil

theorem resolved_plain {p : Path} (hplain : ".." ∉ p.names) :
    p.resolved = ⟨p.base, p.names⟩ := by
  have hfold : ∀ (names : List String) (q : Place), ".." ∉ names →
      names.foldl Place.next q = ⟨q.base, q.names ++ names⟩ := by
    intro names
    induction names with
    | nil =>
        intro q _
        simp
    | cons name names ih =>
        intro q hnames
        rw [List.mem_cons, not_or] at hnames
        have hnext : q.next name = q.under name := by
          rw [Place.next, if_neg (by simpa using Ne.symm hnames.1)]
        rw [List.foldl_cons, hnext, ih _ hnames.2]
        simp [Place.under]
  exact hfold p.names ⟨p.base, []⟩ hplain

theorem parent_join {name : String} (hname : IsName name) (p : Path) :
    (p.join name).parent = p := by
  rw [hname.join_eq, Path.parent, List.dropLast_concat]

end Path

namespace Store

variable {s s' made : Store} {p : Path} {q r : Place} {content : List UInt8}

theorem foldl_next_of_follow {names : List String} (h : s.follow q names = .ok r) :
    names.foldl Place.next q = r := by
  induction names generalizing q with
  | nil =>
      cases h
      rfl
  | cons name names ih =>
      rw [follow] at h
      rw [List.foldl_cons, Place.next]
      split at h
      · cases h
      · cases h
      · split at h
        · rename_i habove
          rw [if_pos habove]
          split at h
          · cases h
          · exact ih h
        · rename_i hdown
          rw [if_neg hdown]
          exact ih h

theorem resolved_of_place (h : s.place p = .ok q) : p.resolved = q :=
  foldl_next_of_follow (place_eq_ok_iff.mp h)

theorem get?_of_passes_parent (h : s.place p = .ok q) (hpasses : p.parent.Passes r) :
    s.get? r = some .directory := by
  rcases hpasses with ⟨names, hbegins, rfl⟩
  rcases List.eq_nil_or_concat p.names with hnil | ⟨init, last, hlast⟩
  · have hnames : names = [] := by
      rw [Path.parent, hnil] at hbegins
      exact List.prefix_nil.mp hbegins
    rw [hnames]
    rfl
  · rw [List.concat_eq_append] at hlast
    rw [Path.parent, hlast, List.dropLast_concat] at hbegins
    rcases hbegins with ⟨between, rfl⟩
    rw [place_eq_ok_iff, hlast, List.append_assoc, follow_append] at h
    cases hfollow : s.follow ⟨p.base, []⟩ names with
    | error e =>
        rw [hfollow] at h
        cases h
    | ok r =>
        rw [hfollow] at h
        have hr : (Path.mk p.parent.base names).resolved = r := foldl_next_of_follow hfollow
        rw [hr]
        dsimp only [Except.bind] at h
        cases hrest : between ++ [last] with
        | nil => simp at hrest
        | cons name rest =>
            rw [hrest, follow] at h
            split at h
            · cases h
            · cases h
            · assumption

/-!
## Making directories
-/

/-- Puts directories at some places. -/
def withDirectories (s : Store) (places : List Place) : Store :=
  ⟨s.entries ++ places.map fun q => (q, .directory)⟩

theorem insert_of_get?_eq_none {entry : Entry} (h : s.get? q = none) :
    s.insert q entry = ⟨s.entries ++ [(q, entry)]⟩ := by
  have hno : (s.entries.any fun e => e.1 == q) = false := by
    rw [List.any_eq_false]
    intro e he heq
    unfold get? at h
    split at h
    · cases h
    · rw [Option.map_eq_none_iff, List.find?_eq_none] at h
      exact h e he heq
  rw [insert, hno]
  rfl

/-- Directories are new at some places where nothing was, all of which a path leads over. -/
def Provides (s s' : Store) (p : Path) : Prop :=
  ∃ places, s' = s.withDirectories places ∧ ∀ q ∈ places, s.get? q = none ∧ p.Passes q

theorem provides_refl (s : Store) (p : Path) : s.Provides s p := by
  refine ⟨[], ?_, ?_⟩
  · simp [withDirectories]
  · intro q hq
    cases hq

theorem get?_withDirectories {places : List Place} (h : ∀ q ∈ places, s.get? q = none) :
    (s.withDirectories places).get? q = if q ∈ places then some .directory else s.get? q := by
  have hfind : ((places.map fun q => (q, Entry.directory)).find? fun e => e.1 == q).map (·.2) =
      if q ∈ places then some .directory else none := by
    rw [List.find?_map, Option.map_map]
    by_cases hmem : q ∈ places
    · rw [if_pos hmem]
      cases hfound : places.find?
          ((fun e : Place × Entry => e.1 == q) ∘ fun q => (q, .directory)) with
      | none => exact absurd (by simp) (List.find?_eq_none.mp hfound q hmem)
      | some r => rfl
    · rw [if_neg hmem, Option.map_eq_none_iff, List.find?_eq_none]
      intro r hr heq
      rw [Function.comp_apply, beq_iff_eq] at heq
      exact hmem (heq ▸ hr)
  unfold get? withDirectories
  by_cases hbase : q.names.isEmpty
  · rw [if_pos hbase, if_pos hbase]
    split <;> rfl
  · rw [if_neg hbase, if_neg hbase, List.find?_append, Option.map_or, hfind]
    by_cases hmem : q ∈ places
    · have hnone := h q hmem
      rw [get?, if_neg hbase] at hnone
      rw [hnone, if_pos hmem]
      rfl
    · rw [if_neg hmem, if_neg hmem, Option.or_none]

namespace Provides

theorem get? (h : s.Provides s' p) (q : Place) :
    s'.get? q = s.get? q ∨ s.get? q = none ∧ s'.get? q = some .directory ∧ p.Passes q := by
  rcases h with ⟨places, rfl, hplaces⟩
  rw [get?_withDirectories fun q hq => (hplaces q hq).1]
  by_cases hmem : q ∈ places
  · rw [if_pos hmem]
    exact Or.inr ⟨(hplaces q hmem).1, rfl, (hplaces q hmem).2⟩
  · rw [if_neg hmem]
    exact Or.inl rfl

theorem grows (h : s.Provides s' p) : s.Grows s' p.Passes := by
  constructor
  · intro q hq
    rcases h.get? q with heq | ⟨hnone, _⟩
    · exact heq
    · exact absurd hnone hq
  · intro q hq
    rcases h.get? q with heq | ⟨_, _, hpasses⟩
    · exact heq
    · exact absurd hpasses hq

theorem trans {p' : Path} (h : s.Provides s' p) (h' : s'.Provides made p')
    (hpasses : ∀ q, p.Passes q → p'.Passes q) : s.Provides made p' := by
  have hgrows := h.grows
  rcases h with ⟨places, rfl, hplaces⟩
  rcases h' with ⟨places', rfl, hplaces'⟩
  refine ⟨places ++ places', ?_, ?_⟩
  · simp [withDirectories]
  · intro q hq
    rcases List.mem_append.mp hq with hq | hq
    · exact ⟨(hplaces q hq).1, hpasses q (hplaces q hq).2⟩
    · refine ⟨?_, (hplaces' q hq).2⟩
      by_contra hne
      have hnone := (hplaces' q hq).1
      rw [hgrows.keeps q hne] at hnone
      exact hne hnone

end Provides

theorem provides_of_provideDirectory (h : s.provideDirectory p = .ok s') : s.Provides s' p := by
  unfold provideDirectory at h
  split at h
  · rename_i made hmade
    cases h
    rcases makeDirectory_eq_ok_iff.mp hmade with ⟨q, hplace, hnone, rfl⟩
    refine ⟨[q], insert_of_get?_eq_none hnone, ?_⟩
    intro r hr
    rw [List.mem_singleton] at hr
    rw [hr]
    refine ⟨hnone, ?_⟩
    rw [← resolved_of_place hplace]
    exact p.passes_self
  · split at h
    · cases h
      exact provides_refl s p
    · cases h

/-- Making the directories of a path, even if it fails, puts directories where the path leads. -/
theorem provides_provideFrom (base : Base) (names : List String) :
    ∀ s : Store, s.Provides (s.provideFrom base names).1 ⟨base, names.reverse⟩ := by
  -- the directory above is made between two attempts
  induction names with
  | nil =>
      intro s
      exact provides_refl s _
  | cons name above ih =>
      intro s
      have hpasses : ∀ q, (Path.mk base above.reverse).Passes q →
          (Path.mk base (name :: above).reverse).Passes q := by
        intro q hq
        apply hq.of_prefix (p := ⟨base, (name :: above).reverse⟩)
        rw [List.reverse_cons]
        exact List.prefix_append _ _
      rw [provideFrom]
      split
      · rename_i made hmade
        exact provides_of_provideDirectory hmade
      · split
        · have habove := ih s
          split
          · rename_i made e heq
            rw [heq] at habove
            exact habove.trans (provides_refl _ _) hpasses
          · rename_i made heq
            rw [heq] at habove
            split
            · rename_i last hlast
              exact habove.trans (provides_of_provideDirectory hlast) hpasses
            · exact habove.trans (provides_refl _ _) hpasses
        · exact provides_refl s _

theorem provides_provide (s : Store) (p : Path) : s.Provides (s.provide p).1 p := by
  have h := provides_provideFrom p.base p.names.reverse s
  rw [List.reverse_reverse] at h
  exact h

/-!
## Writing
-/

theorem write_eq_ok_iff :
    s.write p content = .ok s' ↔
      ∃ q, s.place p = .ok q ∧ s.get? q ≠ some .directory ∧ s' = s.insert q (.file content) := by
  unfold write
  cases hplace : s.place p with
  | error e => simp [bind, Except.bind]
  | ok q =>
      simp only [bind, Except.bind, Except.ok.injEq, exists_eq_left']
      cases hget : s.get? q with
      | none => simp [pure, Except.pure, eq_comm]
      | some entry =>
          cases entry with
          | directory => simp [throw, throwThe, MonadExceptOf.throw]
          | file old => simp [pure, Except.pure, eq_comm]

/-!
## Saving
-/

/-- A file gets its content, after the directories above it were made. -/
structure Saves (s s' : Store) (p : Path) (content : List UInt8) : Prop where
  provided : (s.provide p.parent).2 = none
  written : (s.provide p.parent).1.write p content = .ok s'

namespace Saves

theorem exists_place (h : s.Saves s' p content) :
    ∃ made q, s.Provides made p.parent ∧ made.place p = .ok q ∧ made.get? q ≠ some .directory
      ∧ s' = made.insert q (.file content) := by
  rcases write_eq_ok_iff.mp h.written with ⟨q, hplace, hget, hs'⟩
  exact ⟨_, q, provides_provide s p.parent, hplace, hget, hs'⟩

theorem place (h : s.Saves s' p content) : s'.place p = .ok p.resolved := by
  rcases h.exists_place with ⟨made, q, _, hplace, hget, rfl⟩
  rw [resolved_of_place hplace, place_eq_ok_iff]
  rw [place_eq_ok_iff] at hplace
  -- the file takes the place of no directory, so all that was passed is still there
  apply follow_of_directories _ hplace
  intro r hr
  have hne : r ≠ q := by
    intro heq
    exact hget (heq ▸ hr)
  rw [get?_insert_of_ne _ _ hne, hr]

theorem get?_resolved (h : s.Saves s' p content) : s'.get? p.resolved = some (.file content) := by
  rcases h.exists_place with ⟨made, q, _, hplace, hget, rfl⟩
  rw [resolved_of_place hplace]
  apply get?_insert_self
  intro hnil
  apply hget
  rw [Store.get?, hnil]
  rfl

theorem find? (h : s.Saves s' p content) : s'.find? p = some (.file content) := by
  rw [find?_eq_of_place h.place, h.get?_resolved]

theorem get?_of_ne (h : s.Saves s' p content) (hq : q ≠ p.resolved) :
    s'.get? q = s.get? q ∨
      s.get? q = none ∧ s'.get? q = some .directory ∧ p.parent.Passes q := by
  rcases h.exists_place with ⟨made, r, hprovides, hplace, _, rfl⟩
  rw [resolved_of_place hplace] at hq
  rw [get?_insert_of_ne _ _ hq]
  exact hprovides.get? q

theorem grows (h : s.Saves s' p content) (hnew : (s.provide p.parent).1.contains p = false) :
    s.Grows s' fun q => p.parent.Passes q ∨ q = p.resolved := by
  rcases write_eq_ok_iff.mp h.written with ⟨q, hplace, _, rfl⟩
  have hnone := get?_eq_none_of_place hplace hnew
  apply Grows.trans
  · exact (provides_provide s p.parent).grows.mono fun r hr => Or.inl hr
  · apply (grows_insert hnone).mono
    intro r hr
    rw [hr, resolved_of_place hplace]
    exact Or.inr rfl

/-- In a directory that is there, saving a file changes what is found under its name. -/
theorem find?_join {name other : String} (h : s.Saves s' (p.join name) content)
    (hdirectory : s.find? p = some .directory) (hname : IsName name) (hother : IsName other) :
    s'.find? (p.join other) = if other = name then some (.file content)
      else s.find? (p.join other) := by
  split
  · rename_i heq
    rw [heq]
    exact h.find?
  · rename_i hne
    rcases find?_eq_some_iff.mp hdirectory with ⟨q, hplace, hget⟩
    have hwritten := h.written
    rw [Path.parent_join hname, (provide_of_find? hdirectory).1] at hwritten
    rcases write_eq_ok_iff.mp hwritten with ⟨r, hr, hfile, rfl⟩
    rcases (place_join_iff hname).mp hr with ⟨q', hplace', _, rfl⟩
    rw [hplace] at hplace'
    cases hplace'
    have hleave : ∀ q'', s.get? q'' = some .directory →
        (s.insert (q.under name) (.file content)).get? q'' = some .directory := by
      intro q'' hq''
      rw [get?_insert_of_ne, hq'']
      intro heq
      rw [heq] at hq''
      exact hfile hq''
    have hplace' := follow_of_directories hleave (place_eq_ok_iff.mp hplace)
    rw [shows_of_place hplace hget other hother,
      shows_of_place (place_eq_ok_iff.mpr hplace') (hleave q hget) other hother, get?_insert_of_ne]
    intro heq
    exact hne (Place.under_inj heq).2

end Saves

/-!
## Staying inside a directory
-/

namespace Saves

variable {home : Place}

end Saves

theorem IsSettled.passes (h : s.IsSettled p) (hpasses : p.Passes q) :
    s.get? q ≠ none ∨ q.IsOnWayTo p.resolved := by
  rcases h with hcontains | hplain
  · apply Or.inl
    rcases contains_iff.mp hcontains with ⟨entry, hfind⟩
    rcases find?_eq_some_iff.mp hfind with ⟨r, hplace, hget⟩
    rcases hpasses.eq_or_parent with rfl | habove
    · rw [resolved_of_place hplace, hget]
      exact Option.some_ne_none entry
    · rw [get?_of_passes_parent hplace habove]
      exact Option.some_ne_none _
  · apply Or.inr
    rcases hpasses with ⟨names, hbegins, rfl⟩
    have hplain' : ".." ∉ names := by
      intro hmem
      exact hplain (hbegins.subset hmem)
    rw [Path.resolved_plain hplain, Path.resolved_plain hplain']
    exact ⟨rfl, hbegins⟩

end Store
end Files
end TextMate
