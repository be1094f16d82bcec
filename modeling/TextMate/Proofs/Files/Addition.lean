import TextMate.Proofs.Files.Saving

/-!
# Files that are added

Saving a file where nothing was puts it behind all entries, and in front of it the
directories above it that were missing.  So a directory that was there has what was
in it, followed by what is new; a directory that is new has only that.
-/

namespace TextMate
namespace Files
namespace Store

variable {s s' : Store} {extras : List (Place × Entry)} {p directory : Path} {q : Place}
  {name : String} {content : List UInt8}

theorem place_child (hplace : s.place p = .ok q) (name : String) :
    s.place ⟨p.base, p.names ++ [name]⟩ =
      (s.follow q [name]).mapError fun cause => ⟨cause, ⟨p.base, p.names ++ [name]⟩⟩ := by
  rw [place_eq_ok_iff] at hplace
  rw [place, follow_append, hplace]
  rfl

theorem place_child_of_ne (hplace : s.place p = .ok q) (hdirectory : s.get? q = some .directory)
    (hname : name ≠ "..") : s.place ⟨p.base, p.names ++ [name]⟩ = .ok (q.under name) := by
  rw [place_child hplace, (follow_name_iff hname).mpr ⟨hdirectory, rfl⟩]
  rfl

/-- Some entries are new behind all others, and their names lead down. -/
structure Adds (s s' : Store) (extras : List (Place × Entry)) : Prop where
  entries : s'.entries = s.entries ++ extras
  fresh : ∀ e ∈ extras, s.get? e.1 = none
  found : ∀ e ∈ extras, s'.get? e.1 = some e.2
  down : ∀ e ∈ extras, ".." ∉ e.1.names

namespace Adds

theorem grows (h : s.Adds s' extras) : s.Grows s' fun q => ∃ e ∈ extras, e.1 = q := by
  have hget : ∀ q : Place, (¬ ∃ e ∈ extras, e.1 = q) → s'.get? q = s.get? q := by
    intro q hq
    have hnone : extras.find? (fun e => e.1 == q) = none := by
      rw [List.find?_eq_none]
      intro e he heq
      exact hq ⟨e, he, by simpa using heq⟩
    rw [Store.get?, Store.get?, h.entries, List.find?_append, hnone, Option.or_none]
  constructor
  · intro q hq
    apply hget q
    rintro ⟨e, he, rfl⟩
    exact hq (h.fresh e he)
  · exact hget

theorem namesUnder (h : s.Adds s' extras) (q : Place) :
    s'.namesUnder q = s.namesUnder q ++ (Store.mk extras).namesUnder q := by
  rw [Store.namesUnder, h.entries, List.filterMap_append]
  rfl

theorem find?_of_mem_namesUnder (h : s.Adds s' extras) (hplace : s'.place p = .ok q)
    (hdirectory : s'.get? q = some .directory)
    (hname : name ∈ (Store.mk extras).namesUnder q) :
    ∃ entry, (q.under name, entry) ∈ extras
      ∧ s'.find? ⟨p.base, p.names ++ [name]⟩ = some entry := by
  rcases mem_namesUnder_iff.mp hname with ⟨⟨place, entry⟩, he, rfl⟩
  refine ⟨entry, he, ?_⟩
  have hdown : name ≠ ".." := by
    rintro rfl
    exact h.down _ he (by simp [Place.under])
  rw [find?_eq_of_place (place_child_of_ne hplace hdirectory hdown)]
  exact h.found _ he

theorem find?_child (h : s.Adds s' extras) (hclosed : s.IsClosed) (hplace : s.place p = .ok q)
    (hdirectory : s.get? q = some .directory) (hthere : s.get? (q.under name) ≠ none) :
    s'.find? ⟨p.base, p.names ++ [name]⟩ = s.find? ⟨p.base, p.names ++ [name]⟩ := by
  have hsame : s'.follow q [name] = s.follow q [name] := by
    simp only [follow, hdirectory, h.grows.get?_eq_some hdirectory]
  rw [find?, find?, place_child (h.grows.place hplace), place_child hplace, hsame]
  cases hfollow : s.follow q [name] with
  | error cause => rfl
  | ok r =>
      apply h.grows.keeps r
      by_cases hname : name = ".."
      · -- such a name leads up, to the directory that the place stands in
        rw [follow, hdirectory, hname] at hfollow
        dsimp only at hfollow
        rw [if_pos (beq_self_eq_true "..")] at hfollow
        split at hfollow
        · cases hfollow
        · rename_i hbase
          cases hfollow
          rcases q.eq_base_or_under with hnil | ⟨above, last, rfl⟩
          · simp [hnil] at hbase
          · have habove := hclosed above last (by rw [hdirectory]; exact Option.some_ne_none _)
            rw [Place.under, List.dropLast_concat, habove]
            exact Option.some_ne_none _
      · rw [((follow_name_iff hname).mp hfollow).2]
        exact hthere

theorem children_eq (h : s.Adds s' extras) (hclosed : s.IsClosed) (hclosed' : s'.IsClosed)
    (hsettled : s.IsSettled p) {paths : List Path} (hchildren : s'.children p = .ok paths) :
    ∃ q old, s'.place p = .ok q ∧ s'.get? q = some .directory
      ∧ paths = old ++
        ((Store.mk extras).namesUnder q).map (fun name => ⟨p.base, p.names ++ [name]⟩)
      ∧ (s.children p = .ok old ∨ s.contains p = false ∧ old = []) := by
  rcases children_eq_ok_iff.mp hchildren with ⟨q, hplace, hdirectory, rfl⟩
  refine ⟨q, (s.namesUnder q).map fun name => ⟨p.base, p.names ++ [name]⟩, hplace, hdirectory, ?_,
    ?_⟩
  · rw [h.namesUnder, List.map_append]
  · by_cases hcontains : s.contains p = true
    · apply Or.inl
      rcases contains_iff.mp hcontains with ⟨entry, hfind⟩
      rcases find?_eq_some_iff.mp hfind with ⟨r, hr, hget⟩
      have hrq : r = q := by
        have hr' := h.grows.place hr
        rw [hplace] at hr'
        exact (Except.ok.inj hr').symm
      rw [hrq] at hr hget
      rw [h.grows.get?_eq_some hget] at hdirectory
      rw [Option.some.inj hdirectory] at hget
      exact children_eq_ok_iff.mpr ⟨q, hr, hget, rfl⟩
    · -- nothing was under a place where nothing was
      rw [Bool.not_eq_true] at hcontains
      apply Or.inr
      refine ⟨hcontains, ?_⟩
      have hplain : ".." ∉ p.names := by
        rcases hsettled with hthere | hplain
        · rw [hcontains] at hthere
          cases hthere
        · exact hplain
      have hq : q = ⟨p.base, p.names⟩ := by
        rw [← home_eq_of_place hplace, hclosed'.home_plain hplain]
      have hnone : s.get? q = none := by
        rw [hq, ← hclosed.find?_plain hplain]
        simpa [contains] using hcontains
      rw [List.map_eq_nil_iff, List.eq_nil_iff_forall_not_mem]
      intro name hmem
      apply get?_under_ne_none_iff.mpr (mem_namesUnder_iff.mp hmem)
      apply hclosed.get?_under_eq_none
      rw [hnone]
      exact Option.some_ne_none _ |>.symm

end Adds

theorem IsClosed.home_eq_resolved (h : s.IsClosed) (hsettled : s.IsSettled p) :
    s.home p = p.resolved := by
  rcases hsettled with hcontains | hplain
  · rcases contains_iff.mp hcontains with ⟨entry, hfind⟩
    rcases find?_eq_some_iff.mp hfind with ⟨q, hplace, _⟩
    rw [home_eq_of_place hplace, resolved_of_place hplace]
  · rw [h.home_plain hplain, Path.resolved_plain hplain]

/-- An entry that is put where nothing is, after directories were made, is added with them. -/
theorem Provides.adds_insert {made : Store} {entry : Entry} (h : s.Provides made p)
    (hnone : made.get? q = none) (hdown : ".." ∉ q.names) :
    ∃ places : List Place, s.Adds (made.insert q entry)
      (places.map (fun q => (q, .directory)) ++ [(q, entry)]) := by
  have hfresh : s.get? q = none := by
    rcases h.get? q with hsame | ⟨hfresh, _⟩
    · rw [← hsame, hnone]
    · exact hfresh
  have hinsert := @insert_of_get?_eq_none made q entry hnone
  have hbase : q.names ≠ [] := by
    intro hnil
    rw [Store.get?, hnil] at hnone
    cases hnone
  rcases h with ⟨places, rfl, hplaces⟩
  refine ⟨places, ?_, ?_, ?_, ?_⟩
  · rw [hinsert]
    simp [withDirectories]
  · rw [List.forall_mem_append, List.forall_mem_map, List.forall_mem_singleton]
    exact ⟨fun r hr => (hplaces r hr).1, hfresh⟩
  · rw [List.forall_mem_append, List.forall_mem_map, List.forall_mem_singleton]
    refine ⟨?_, get?_insert_self _ _ _ hbase⟩
    intro r hr
    have hmade : (s.withDirectories places).get? r = some .directory := by
      rw [get?_withDirectories fun q hq => (hplaces q hq).1, if_pos hr]
    have hne : r ≠ q := by
      rintro rfl
      rw [hnone] at hmade
      cases hmade
    rw [get?_insert_of_ne _ _ hne, hmade]
  · rw [List.forall_mem_append, List.forall_mem_map, List.forall_mem_singleton]
    refine ⟨?_, hdown⟩
    intro r hr
    rcases (hplaces r hr).2 with ⟨names, _, rfl⟩
    exact Path.above_not_mem_resolved _

theorem Saves.adds (hclosed : s.IsClosed) (hsettled : s.IsSettled directory) (hname : IsName name)
    (hfresh : s.contains (directory.join name) = false)
    (h : s.Saves s' (directory.join name) content) :
    s'.IsClosed ∧ ∃ places : List Place, s.Adds s'
      (places.map (fun q => (q, .directory)) ++
        [(directory.resolved.under name, .file content)]) := by
  have hwritten := h.written
  rw [Path.parent_join hname] at hwritten
  rcases grows_provide hclosed hsettled with ⟨hclosedMade, _⟩
  have hprovides := provides_provide s directory
  generalize (s.provide directory).1 = made at hwritten hclosedMade hprovides
  rcases write_eq_ok_iff.mp hwritten with ⟨q, hplace, hget, rfl⟩
  rcases (place_join_iff hname).mp hplace with ⟨target, htarget, hdirectory, rfl⟩
  have hspelled : (directory.join name).resolved = target.under name := resolved_of_place hplace
  have hnone : made.get? (target.under name) = none := by
    rcases hprovides.get? (target.under name) with hsame | ⟨_, hdirectory, _⟩
    · rw [hsame, ← resolved_of_place htarget, ← hclosed.home_eq_resolved hsettled,
        ← hclosed.shows_home hsettled name hname]
      simpa [contains] using hfresh
    · exact absurd hdirectory hget
  refine ⟨hclosedMade.insert hnone hdirectory, ?_⟩
  rw [resolved_of_place htarget]
  apply hprovides.adds_insert hnone
  rw [← hspelled]
  exact Path.above_not_mem_resolved _

end Store
end Files
end TextMate
