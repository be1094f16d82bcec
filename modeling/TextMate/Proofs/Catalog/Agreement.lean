import TextMate.Proofs.Catalog.Precedence

/-!
# Listing and asking

A name that is asked for leads to the first of its files that is there, in the
project before the library and by the order of the suffixes.  A listing has the
last of its files that can be loaded, in the library before the project and by the
order of the names.  Where no directory has a name twice as YAML, and no suffix has
capital letters, the second order is the first one reversed.  Then the two agree
about every name whose file can be loaded; of a name whose file cannot be loaded a
listing has the next file instead.
-/

namespace TextMate
namespace Catalog

open Files

/-!
## The order of asking
-/

section Asking

variable {c : Catalog} {directory p : Path} {name suffix : String} {g : Grammar}

def pathsIn (directory : Path) (name : String) : List Path :=
  suffixes.map fun suffix => directory.join (name ++ suffix)

def pathsOf (c : Catalog) (name : String) : List Path :=
  c.directories.flatMap fun directory => pathsIn directory name

/-- The first file of a name that can be loaded, in the order of asking, and its grammar. -/
def IsFirstLoadable (c : Catalog) (name : String) (p : Path) (g : Grammar) : Prop :=
  ∃ before after, c.pathsOf name = before ++ p :: after ∧ ((load p).on c).1 = .ok g
    ∧ ∀ q ∈ before, ∀ g', ((load q).on c).1 ≠ .ok g'

def loadedAt? (files : Store) (p : Path) : Option (Path × Grammar) :=
  (loaded files p).toOption.map fun g => (p, g)

theorem loadedAt?_eq_some_iff {files : Store} {q : Path} :
    loadedAt? files q = some (p, g) ↔ q = p ∧ loaded files p = .ok g := by
  unfold loadedAt?
  cases hload : loaded files q with
  | ok g' =>
      constructor
      · intro h
        cases h
        exact ⟨rfl, hload⟩
      · rintro ⟨rfl, h⟩
        rw [hload] at h
        cases h
        rfl
  | error e =>
      constructor
      · intro h
        cases h
      · rintro ⟨rfl, h⟩
        rw [hload] at h
        cases h

theorem loadedAt?_eq_none_iff {files : Store} :
    loadedAt? files p = none ↔ ∀ g, loaded files p ≠ .ok g := by
  rw [Option.eq_none_iff_forall_ne_some]
  constructor
  · intro h g hload
    exact h (p, g) (loadedAt?_eq_some_iff.mpr ⟨rfl, hload⟩)
  · rintro h ⟨q, g⟩ hsome
    rcases loadedAt?_eq_some_iff.mp hsome with ⟨rfl, hload⟩
    exact h g hload

theorem findSome?_flatMap {α β γ : Type} (as : List α) (f : α → List β) (h : β → Option γ) :
    (as.flatMap f).findSome? h = as.findSome? fun a => (f a).findSome? h := by
  induction as with
  | nil => rfl
  | cons a as ih =>
      rw [List.flatMap_cons, List.findSome?_append, ih, List.findSome?_cons]
      cases (f a).findSome? h <;> rfl

theorem isFirstLoadable_iff :
    c.IsFirstLoadable name p g ↔ (c.pathsOf name).findSome? (loadedAt? c.files) = some (p, g) := by
  rw [List.findSome?_eq_some_iff]
  constructor
  · rintro ⟨before, after, hpaths, hload, hbefore⟩
    rw [load_on] at hload
    refine ⟨before, p, after, hpaths, loadedAt?_eq_some_iff.mpr ⟨rfl, hload⟩, ?_⟩
    intro q hq
    rw [loadedAt?_eq_none_iff]
    intro g'
    rw [← load_on]
    exact hbefore q hq g'
  · rintro ⟨before, q, after, hpaths, hsome, hbefore⟩
    rcases loadedAt?_eq_some_iff.mp hsome with ⟨rfl, hload⟩
    refine ⟨before, after, hpaths, ?_, ?_⟩
    · rw [load_on]
      exact hload
    · intro q hq g'
      rw [load_on]
      exact loadedAt?_eq_none_iff.mp (hbefore q hq) g'

theorem IsFirstLoadable.unique {p' : Path} {g' : Grammar} (h : c.IsFirstLoadable name p g)
    (h' : c.IsFirstLoadable name p' g') : p = p' ∧ g = g' := by
  rw [isFirstLoadable_iff] at h h'
  rw [h] at h'
  cases h'
  exact ⟨rfl, rfl⟩

theorem findFile?_eq_find? (hname : IsStem name) :
    c.findFile? name = (c.pathsOf name).find? c.files.contains := by
  rw [findFile?_eq hname, pathsOf, List.find?_flatMap]
  rfl

theorem contains_of_loaded {files : Store} (h : loaded files p = .ok g) :
    files.contains p = true := by
  rcases find?_of_loaded h with ⟨bytes, hfind⟩
  exact Store.contains_iff.mpr ⟨_, hfind⟩

/-- A file that is found and can be loaded is the first one of its name that can be loaded. -/
theorem isFirstLoadable_of_found (hname : IsStem name) (hfind : c.findFile? name = some p)
    (hload : loaded c.files p = .ok g) : c.IsFirstLoadable name p g := by
  rw [findFile?_eq_find? hname, List.find?_eq_some_iff_append] at hfind
  rcases hfind with ⟨_, before, after, hpaths, hbefore⟩
  refine ⟨before, after, hpaths, ?_, ?_⟩
  · rw [load_on]
    exact hload
  · intro q hq g' hload'
    rw [load_on] at hload'
    have hmissing := hbefore q hq
    rw [contains_of_loaded hload'] at hmissing
    cases hmissing

theorem not_isFirstLoadable_of_missing (hname : IsStem name) (hfind : c.findFile? name = none) :
    ¬ c.IsFirstLoadable name p g := by
  rintro ⟨before, after, hpaths, hload, _⟩
  rw [findFile?_eq_find? hname, List.find?_eq_none, hpaths] at hfind
  rw [load_on] at hload
  exact hfind p (List.mem_append_right before List.mem_cons_self) (contains_of_loaded hload)

end Asking

/-!
## The files of a name in a directory
-/

section Directory

variable {c : Catalog} {directory p : Path} {name suffix : String} {g : Grammar} {s : Summary}

/-- Of the files of a name in a directory that can be loaded, none has capital letters in its
suffix, and no two are YAML. -/
structure HasPlainFiles (c : Catalog) (directory : Path) (name : String) : Prop where
  small : ∀ p g, IsLoadable c directory name p g → p.suffix ∈ suffixes
  apart : ∀ p g p' g', IsLoadable c directory name p g → IsLoadable c directory name p' g' →
    p.suffix = ".yaml" → p'.suffix ≠ ".yml"

theorem isLoadable_join_iff (hname : IsStem name) (hne : name ≠ "") (hsuffix : suffix ∈ suffixes) :
    IsLoadable c directory name (directory.join (name ++ suffix)) g ↔
      loaded c.files (directory.join (name ++ suffix)) = .ok g := by
  rw [isLoadable_iff]
  constructor
  · rintro ⟨_, _, hload⟩
    exact hload
  · intro hload
    have hfile := hname.isName hsuffix
    have hparts : (directory.join (name ++ suffix)).stem = name
        ∧ (directory.join (name ++ suffix)).suffix = suffix := stem_join hname hne hsuffix
    rcases hparts with ⟨hstem, hjoined⟩
    refine ⟨?_, hstem, hload⟩
    have hcontains := contains_of_loaded hload
    rcases Store.place_of_contains_join hfile hcontains with ⟨q, hplace, hget⟩
    have hchildren := Store.children_eq_ok_iff.mpr ⟨q, hplace, hget, rfl⟩
    refine ⟨_, hchildren, ?_, ?_⟩
    · rcases Store.children_eq_ok hchildren with ⟨q', hplace', _, hmem⟩
      rw [hplace] at hplace'
      cases hplace'
      rw [Store.contains, Store.shows_of_place hplace hget _ hfile] at hcontains
      exact (hmem _).mpr ⟨_, hfile.join_eq _, Option.isSome_iff_ne_none.mp hcontains⟩
    · rw [hjoined, lowercase_of_mem_suffixes hsuffix]
      exact hsuffix

/-- A loadable file with a suffix in small letters is where a file of its name may be. -/
theorem IsLoadable.eq_join (h : IsLoadable c directory name p g) (hname : IsStem name)
    (hsuffix : p.suffix ∈ suffixes) : p = directory.join (name ++ p.suffix) := by
  rcases h.candidate with ⟨paths, hchildren, hmem, _⟩
  rcases Store.children_eq_ok hchildren with ⟨_, _, _, hpaths⟩
  rcases (hpaths p).mp hmem with ⟨other, hp, _⟩
  have hother : other = name ++ p.suffix := by
    rw [← h.stem, ← p.name_eq_stem_append_suffix, hp]
    simp [Path.name]
  rw [(hname.isName hsuffix).join_eq, ← hother]
  exact hp

/-- The order of names is the order of asking reversed, but for the two suffixes of YAML. -/
theorem pairwise_suffixes :
    suffixes.Pairwise fun suffix suffix' =>
      suffix = ".yaml" ∧ suffix' = ".yml" ∨ suffix' < suffix := by
  decide

variable (directory) in
theorem pairwise_pathsIn (hname : IsStem name) (hne : name ≠ "") :
    (pathsIn directory name).Pairwise fun p p' =>
      p.suffix = ".yaml" ∧ p'.suffix = ".yml" ∨ p'.name ≤ p.name := by
  rw [pathsIn, List.pairwise_map]
  apply pairwise_suffixes.imp_of_mem
  intro suffix suffix' hsuffix hsuffix' h
  rw [(stem_join hname hne hsuffix).2, (stem_join hname hne hsuffix').2,
    (hname.isName hsuffix).name_join, (hname.isName hsuffix').name_join]
  apply h.imp_right
  intro hlt
  apply String.not_lt.mp
  apply String.lt_asymm
  rw [String.lt_iff, String.toList_append, String.toList_append]
  exact List.append_left_lt (String.lt_iff.mp hlt)

section Plain

variable (hname : IsStem name) (hne : name ≠ "")
include hname hne

theorem isLoadable_of_mem_pathsIn (hp : p ∈ pathsIn directory name)
    (hload : loaded c.files p = .ok g) : IsLoadable c directory name p g := by
  rcases List.mem_map.mp hp with ⟨suffix, hsuffix, rfl⟩
  exact (isLoadable_join_iff hname hne hsuffix).mpr hload

variable (hplain : HasPlainFiles c directory name)
include hplain

omit hne in
theorem HasPlainFiles.mem_pathsIn (h : IsLoadable c directory name p g) :
    p ∈ pathsIn directory name := by
  have hsuffix := hplain.small p g h
  exact List.mem_map.mpr ⟨p.suffix, hsuffix, (h.eq_join hname hsuffix).symm⟩

theorem HasPlainFiles.findSome?_eq_none_iff :
    (pathsIn directory name).findSome? (loadedAt? c.files) = none ↔
      ∀ p g, ¬ IsLoadable c directory name p g := by
  rw [List.findSome?_eq_none_iff]
  constructor
  · intro h p g hloadable
    have hnone := loadedAt?_eq_none_iff.mp (h p (hplain.mem_pathsIn hname hloadable))
    exact hnone g (isLoadable_iff.mp hloadable).2.2
  · intro h p hp
    rw [loadedAt?_eq_none_iff]
    intro g hload
    exact h p g (isLoadable_of_mem_pathsIn hname hne hp hload)

theorem HasPlainFiles.isLast_of_findSome?
    (h : (pathsIn directory name).findSome? (loadedAt? c.files) = some (p, g)) :
    IsLast c directory name p g := by
  rcases List.findSome?_eq_some_iff.mp h with ⟨before, q, after, hpaths, hsome, hbefore⟩
  rcases loadedAt?_eq_some_iff.mp hsome with ⟨rfl, hload⟩
  have hmem : q ∈ pathsIn directory name := by
    rw [hpaths]
    exact List.mem_append_right before List.mem_cons_self
  have hloadable := isLoadable_of_mem_pathsIn hname hne hmem hload
  refine ⟨hloadable, ?_⟩
  intro p' g' hloadable'
  have hmem' := hplain.mem_pathsIn hname hloadable'
  rw [hpaths, List.mem_append, List.mem_cons] at hmem'
  rcases hmem' with hearlier | rfl | hlater
  · have hnone := loadedAt?_eq_none_iff.mp (hbefore p' hearlier)
    exact absurd (isLoadable_iff.mp hloadable').2.2 (hnone g')
  · exact String.le_refl _
  · have hpairwise := pairwise_pathsIn directory hname hne
    rw [hpaths, List.pairwise_append, List.pairwise_cons] at hpairwise
    rcases hpairwise.2.1.1 p' hlater with ⟨hyaml, hyml⟩ | hle
    · exact absurd hyml (hplain.apart q g p' g' hloadable hloadable' hyaml)
    · exact hle

theorem HasPlainFiles.isLastSummary_iff (hs : s.name = name) :
    IsLastSummary c directory s ↔
      ∃ p g, (pathsIn directory name).findSome? (loadedAt? c.files) = some (p, g)
        ∧ s = g.summary name (some p.text) := by
  rw [IsLastSummary, hs]
  constructor
  · rintro ⟨p, g, hlast, hsummary⟩
    cases hfirst : (pathsIn directory name).findSome? (loadedAt? c.files) with
    | none =>
        exact absurd hlast.loadable ((hplain.findSome?_eq_none_iff hname hne).mp hfirst p g)
    | some found =>
        rcases hlast.unique (hplain.isLast_of_findSome? hname hne hfirst) with ⟨hp, hg⟩
        rw [hp, hg] at hsummary
        exact ⟨found.1, found.2, rfl, hsummary⟩
  · rintro ⟨p, g, hfirst, hsummary⟩
    exact ⟨p, g, hplain.isLast_of_findSome? hname hne hfirst, hsummary⟩

end Plain

end Directory

/-!
## Both directories
-/

section Agreement

variable {c : Catalog} {listing : List Summary} {name : String} {s : Summary}

theorem isListable_of_listed (hlist : listed c = .ok listing) : c.IsListable := by
  constructor
  · intro directory hmem content hfile
    rcases summariesOf_of_listed hlist hmem with ⟨summaries, hsummaries⟩
    have hcontains : c.files.contains directory = true := Store.contains_iff.mpr ⟨_, hfile⟩
    cases hchildren : c.files.children directory with
    | error e =>
        rw [summariesOf, filesIn, if_pos hcontains, hchildren] at hsummaries
        cases hsummaries
    | ok paths =>
        rcases Store.children_eq_ok hchildren with ⟨q, hplace, hget, _⟩
        rw [Store.find?_eq_some_iff.mpr ⟨q, hplace, hget⟩] at hfile
        cases hfile
  · rintro directory hmem p ⟨paths, hchildren, hp, hsuffix⟩ e he
    rcases summariesOf_of_listed hlist hmem with ⟨summaries, hsummaries⟩
    rw [load_on] at he
    have hcontains : c.files.contains directory = true := by
      rcases Store.children_eq_ok hchildren with ⟨q, hplace, hget, _⟩
      exact Store.contains_iff.mpr ⟨_, Store.find?_eq_some_iff.mpr ⟨q, hplace, hget⟩⟩
    have hfiles : filesIn c.files directory = .ok (ordered paths) := by
      rw [filesIn, if_pos hcontains, hchildren]
      rfl
    cases hmapped : (ordered paths).mapM fun p => summarized c.files p with
    | error e' =>
        rw [summariesOf, hfiles] at hsummaries
        simp only [Except.bind, hmapped] at hsummaries
        cases hsummaries
    | ok found =>
        rcases ok_of_mapM_eq_ok hmapped p (mem_ordered_iff.mpr ⟨hp, hsuffix⟩) with ⟨o, ho⟩
        rw [summarized_of_failed he] at ho
        by_contra hskipped
        rw [if_neg hskipped] at ho
        cases ho

theorem isListed_iff (hname : IsStem name) (hne : name ≠ "")
    (hplain : ∀ directory ∈ c.directories, HasPlainFiles c directory name) (hs : s.name = name) :
    IsListed c s ↔ ∃ p g, c.IsFirstLoadable name p g ∧ s = g.summary name (some p.text) := by
  have hlibrary := hplain c.library (by simp [directories])
  simp only [isFirstLoadable_iff, pathsOf, findSome?_flatMap]
  rw [IsListed, hlibrary.isLastSummary_iff hname hne hs, hs]
  cases hproject : c.project with
  | none => simp [directories, hproject]
  | some project =>
      have hplain := hplain project (by simp [directories, hproject])
      simp only [directories, hproject, Option.toList_some, List.singleton_append,
        List.findSome?_cons, List.findSome?_nil, Option.mem_some_iff, exists_eq_left',
        forall_eq', hplain.isLastSummary_iff hname hne hs,
        ← hplain.findSome?_eq_none_iff hname hne]
      cases (pathsIn project name).findSome? (loadedAt? c.files) with
      | none => cases (pathsIn c.library name).findSome? (loadedAt? c.files) <;> simp
      | some found => simp

theorem mem_list_iff (hlist : (list.on c).1 = .ok listing) (hname : IsStem name) (hne : name ≠ "")
    (hplain : ∀ directory ∈ c.directories, HasPlainFiles c directory name) (s : Summary) :
    s ∈ listing ∧ s.name = name ↔
      ∃ p g, c.IsFirstLoadable name p g ∧ s = g.summary name (some p.text) := by
  have hlisted : listed c = .ok listing := by
    rw [show list.on c = (listed c, c) from list_answers] at hlist
    exact hlist
  rcases (isListable_of_listed hlisted).list_eq with ⟨listing', hlist', _, hmem⟩
  rw [show list.on c = (listed c, c) from list_answers, hlisted] at hlist'
  cases hlist'
  rw [hmem]
  constructor
  · rintro ⟨hs, hsname⟩
    exact (isListed_iff hname hne hplain hsname).mp hs
  · rintro ⟨p, g, hfirst, rfl⟩
    exact ⟨(isListed_iff hname hne hplain rfl).mpr ⟨p, g, hfirst, rfl⟩, rfl⟩

section Fresh

variable {g : Grammar} (hkept : c.kept = []) (hname : IsStem name)
include hkept hname

/-- A grammar that is answered is from the first file of its name that can be loaded. -/
theorem isFirstLoadable_of_answer (h : ((grammar? name).on c).1 = .ok (some g)) :
    ∃ p, c.findFile? name = some p ∧ c.IsFirstLoadable name p g := by
  have hfresh : c.kept.find? (fun e => e.1 == name) = none := by rw [hkept]; rfl
  cases hfind : c.findFile? name with
  | none =>
      rw [grammar?_of_missing hfresh hfind] at h
      cases h
  | some p =>
      cases hload : loaded c.files p with
      | error e =>
          rw [grammar?_of_failed hfresh hfind hload] at h
          cases h
      | ok g' =>
          rw [grammar?_of_loaded hfresh hfind hload] at h
          cases h
          exact ⟨p, rfl, isFirstLoadable_of_found hname hfind hload⟩

theorem not_isFirstLoadable_of_answer (h : ((grammar? name).on c).1 = .ok none) (p : Path) :
    ¬ c.IsFirstLoadable name p g := by
  have hfresh : c.kept.find? (fun e => e.1 == name) = none := by rw [hkept]; rfl
  cases hfind : c.findFile? name with
  | none => exact not_isFirstLoadable_of_missing hname hfind
  | some q =>
      cases hload : loaded c.files q with
      | error e =>
          rw [grammar?_of_failed hfresh hfind hload] at h
          cases h
      | ok g' =>
          rw [grammar?_of_loaded hfresh hfind hload] at h
          cases h

end Fresh

/-- A listing has exactly the names that can be asked for, with the summaries of what is answered
then; but of a name whose file cannot be loaded it has the next file that can be loaded. -/
theorem listing_agrees_with_asking (hkept : c.kept = []) (hlist : (list.on c).1 = .ok listing)
    (hname : IsStem name) (hne : name ≠ "")
    (hplain : ∀ directory ∈ c.directories, HasPlainFiles c directory name) :
    (∀ g, ((grammar? name).on c).1 = .ok (some g) → ∃ p, c.findFile? name = some p ∧
        ∀ s, s ∈ listing ∧ s.name = name ↔ s = g.summary name (some p.text)) ∧
      (((grammar? name).on c).1 = .ok none → ∀ s ∈ listing, s.name ≠ name) ∧
      ∀ e, ((grammar? name).on c).1 = .error e →
        ∀ s, s ∈ listing ∧ s.name = name ↔
          ∃ p g, c.IsFirstLoadable name p g ∧ s = g.summary name (some p.text) := by
  have hmem := mem_list_iff hlist hname hne hplain
  refine ⟨?_, ?_, fun _ _ => hmem⟩
  · intro g h
    rcases isFirstLoadable_of_answer hkept hname h with ⟨p, hfind, hfirst⟩
    refine ⟨p, hfind, fun s => ?_⟩
    rw [hmem]
    constructor
    · rintro ⟨p', g', hfirst', rfl⟩
      rcases hfirst.unique hfirst' with ⟨rfl, rfl⟩
      rfl
    · intro hs
      exact ⟨p, g, hfirst, hs⟩
  · intro h s hs hsname
    rcases (hmem s).mp ⟨hs, hsname⟩ with ⟨p, g, hfirst, _⟩
    exact not_isFirstLoadable_of_answer hkept hname h p hfirst

end Agreement

/-!
## A name that is listed and cannot be asked for
-/

theorem hasPlainFiles_of_single {c : Catalog} {directory p : Path} {name : String}
    (hchildren : c.files.children directory = .ok [p]) (hsuffix : p.suffix ∈ suffixes) :
    HasPlainFiles c directory name := by
  have hsingle : ∀ q g, IsLoadable c directory name q g → q = p := by
    intro q g h
    rcases h.candidate with ⟨paths, hpaths, hmem, _⟩
    rw [hchildren] at hpaths
    cases hpaths
    exact List.mem_singleton.mp hmem
  constructor
  · intro q g h
    rw [hsingle q g h]
    exact hsuffix
  · intro q g q' g' h h' hyaml hyml
    rw [hsingle q g h] at hyaml
    rw [hsingle q' g' h', hyaml] at hyml
    exact absurd hyml (by decide)

theorem shadowed_hasPlainFiles :
    ∀ directory ∈ shadowed.directories, HasPlainFiles shadowed directory "a" := by
  intro directory hmem
  rcases shadowed_children hmem with ⟨_, hchildren⟩ | ⟨_, hchildren⟩
  · exact hasPlainFiles_of_single hchildren (by decide)
  · exact hasPlainFiles_of_single hchildren (by decide)

theorem shadowed_grammar? :
    ((grammar? "a").on shadowed).1 = .error (.encoding ⟨0, [0xff], .invalidStart⟩) := by
  rw [grammar?_of_failed rfl (p := ⟨.here, ["project", "a.json"]⟩) rfl shadowed_loaded.2]

theorem shadowed_isFirstLoadable :
    shadowed.IsFirstLoadable "a" ⟨.here, ["library", "a.json"]⟩ plainest := by
  refine ⟨[⟨.here, ["project", "a.yaml"]⟩, ⟨.here, ["project", "a.yml"]⟩,
    ⟨.here, ["project", "a.json"]⟩, ⟨.here, ["library", "a.yaml"]⟩,
    ⟨.here, ["library", "a.yml"]⟩], [], by decide +kernel, ?_, ?_⟩
  · rw [load_on]
    exact shadowed_loaded.1
  · intro q hq g hload
    rw [load_on] at hload
    rcases find?_of_loaded hload with ⟨bytes, hfind⟩
    simp only [List.mem_cons, List.not_mem_nil, or_false] at hq
    rcases hq with rfl | rfl | rfl | rfl | rfl
    · cases hfind
    · cases hfind
    · rw [shadowed_loaded.2] at hload
      cases hload
    · cases hfind
    · cases hfind

/-- Under such a name the listing has the grammar of the library. -/
theorem shadowed_listing_has_library_grammar :
    (∀ directory ∈ shadowed.directories, HasPlainFiles shadowed directory "a") ∧
      ∃ listing, (list.on shadowed).1 = .ok listing ∧
        ∀ s, s ∈ listing ∧ s.name = "a" ↔ s = plainest.summary "a" (some "library/a.json") := by
  rcases shadowed_isListable.list_eq with ⟨listing, hlist, _, _⟩
  have hlist := congrArg Prod.fst hlist
  have h := (listing_agrees_with_asking rfl hlist (by decide) (by decide)
    shadowed_hasPlainFiles).2.2 _ shadowed_grammar?
  refine ⟨shadowed_hasPlainFiles, listing, hlist, fun s => ?_⟩
  rw [h]
  constructor
  · rintro ⟨p, g, hfirst, rfl⟩
    rcases shadowed_isFirstLoadable.unique hfirst with ⟨rfl, rfl⟩
    rfl
  · rintro rfl
    exact ⟨_, _, shadowed_isFirstLoadable, rfl⟩

/-- A grammar of the library whose name cannot be asked for is listed: the file of the project
comes first, and it cannot be read. -/
theorem shadowed_name_is_listed :
    shadowed.kept = [] ∧ ∃ listing, (list.on shadowed).1 = .ok listing ∧
      ¬ ((∃ s ∈ listing, s.name = "a") ↔
        ∃ g, ((grammar? "a").on shadowed).1 = .ok (some g)) := by
  rcases shadowed_isListable.list_eq with ⟨listing, hlist, _, hmem⟩
  refine ⟨rfl, listing, congrArg Prod.fst hlist, ?_⟩
  intro hiff
  rcases shadowed_isListable.exists_isListed (by simp [directories, shadowed])
    shadowed_isLoadable with ⟨s, hname, hs⟩
  rcases hiff.mp ⟨s, (hmem s).mpr hs, hname⟩ with ⟨g, hg⟩
  rw [shadowed_grammar?] at hg
  cases hg

end Catalog
end TextMate
