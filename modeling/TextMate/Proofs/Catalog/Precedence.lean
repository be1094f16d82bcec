import TextMate.Proofs.Catalog.Addition

/-!
# The project before the library

A listing goes through the grammar files of the library and then through those of
the project, each by name, and keeps the last grammar of every stem.  So a stem has
the last file of the project that could be loaded or, if there is none, the last one
of the library.
-/

namespace TextMate
namespace Catalog

open Files

/-- A child of a directory with the suffix of a grammar, in letters of any case. -/
def IsCandidate (files : Store) (directory p : Path) : Prop :=
  ∃ paths, files.children directory = .ok paths ∧ p ∈ paths ∧ Text.lowercase p.suffix ∈ suffixes

/-- A file of a directory with the stem, and the grammar that is loaded from it. -/
structure IsLoadable (c : Catalog) (directory : Path) (name : String) (p : Path) (g : Grammar) :
    Prop where
  candidate : IsCandidate c.files directory p
  stem : p.stem = name
  loads : ((load p).on c).1 = .ok g

/-- The last of these files by name. -/
structure IsLast (c : Catalog) (directory : Path) (name : String) (p : Path) (g : Grammar) :
    Prop where
  loadable : IsLoadable c directory name p g
  last : ∀ p' g', IsLoadable c directory name p' g' → p'.name ≤ p.name

/-- A listing has something to go through: no directory is a file, and whatever cannot be loaded
is left out. -/
structure IsListable (c : Catalog) : Prop where
  directories : ∀ directory ∈ c.directories, ∀ content,
    c.files.find? directory ≠ some (.file content)
  skipped : ∀ directory ∈ c.directories, ∀ p, IsCandidate c.files directory p →
    ∀ e, ((load p).on c).1 = .error e → e.isSkipped = true

/-- The same grammar files are in a directory. -/
structure SameCandidates (files files' : Store) (directory : Path) : Prop where
  candidates : ∀ p, IsCandidate files' directory p ↔ IsCandidate files directory p
  contents : ∀ p, IsCandidate files directory p → files'.find? p = files.find? p

/-!
## The last of a list
-/

section Last

variable {α β : Type} {as : List α} {f : α → Option β} {wanted : β → Bool} {b : β}

theorem exists_last_of_find?_reverse {before : α → α → Prop} (hrefl : ∀ a, before a a)
    (hsorted : as.Pairwise before) (h : (as.filterMap f).reverse.find? wanted = some b) :
    ∃ a ∈ as, f a = some b ∧ wanted b = true ∧
      ∀ a' ∈ as, ∀ b', f a' = some b' → wanted b' = true → before a' a := by
  induction as with
  | nil => cases h
  | cons a as ih =>
      rw [List.pairwise_cons] at hsorted
      have hfound : ((as.filterMap f).reverse.find? wanted).or ((f a).toList.find? wanted) =
          some b := by
        rw [← h, List.filterMap_cons]
        cases f a with
        | none => simp
        | some b' => simp [List.find?_append]
      rw [Option.or_eq_some_iff] at hfound
      rcases hfound with hlater | ⟨hnone, hfirst⟩
      · rcases ih hsorted.2 hlater with ⟨last, hlast, hf, hwanted, hbefore⟩
        refine ⟨last, List.mem_cons_of_mem a hlast, hf, hwanted, ?_⟩
        intro a' ha' b' hb' hwanted'
        rcases List.mem_cons.mp ha' with rfl | ha'
        · exact hsorted.1 last hlast
        · exact hbefore a' ha' b' hb' hwanted'
      · have hf : f a = some b := by
          rw [← Option.mem_toList]
          exact List.mem_of_find?_eq_some hfirst
        refine ⟨a, List.mem_cons_self, hf, List.find?_some hfirst, ?_⟩
        intro a' ha' b' hb' hwanted'
        rcases List.mem_cons.mp ha' with rfl | ha'
        · exact hrefl a'
        · have hmem : b' ∈ (as.filterMap f).reverse :=
            List.mem_reverse.mpr (List.mem_filterMap.mpr ⟨a', ha', hb'⟩)
          exact absurd hwanted' (List.find?_eq_none.mp hnone b' hmem)

end Last

/-!
## Candidates
-/

section Candidates

variable {files files' : Store} {directory p p' : Path}

theorem IsCandidate.eq_of_name_eq (h : IsCandidate files directory p)
    (h' : IsCandidate files directory p') (hname : p.name = p'.name) : p = p' := by
  have hchild : ∀ p, IsCandidate files directory p →
      p = ⟨directory.base, directory.names ++ [p.name]⟩ := by
    intro p hp
    rcases hp with ⟨paths, hchildren, hmem, _⟩
    rcases Store.children_eq_ok hchildren with ⟨_, _, _, hpaths⟩
    rcases (hpaths p).mp hmem with ⟨name, rfl, _⟩
    simp [Path.name]
  rw [hchild p h, hchild p' h', hname]

theorem exists_filesIn (h : ∀ content, files.find? directory ≠ some (.file content)) :
    ∃ paths, filesIn files directory = .ok paths ∧ (∀ p, p ∈ paths ↔ IsCandidate files directory p)
      ∧ paths.Pairwise fun a b => a.name ≤ b.name := by
  cases hfind : files.find? directory with
  | none =>
      refine ⟨[], ?_, ?_, List.Pairwise.nil⟩
      · rw [filesIn, if_neg (by simp [Store.contains, hfind])]
      · intro p
        constructor
        · intro hp
          cases hp
        · rintro ⟨paths, hchildren, _⟩
          rcases Store.children_eq_ok hchildren with ⟨q, hplace, hdirectory, _⟩
          rw [Store.find?_eq_some_iff.mpr ⟨q, hplace, hdirectory⟩] at hfind
          cases hfind
  | some entry =>
      cases entry with
      | file content => exact absurd hfind (h content)
      | directory =>
          rcases Store.find?_eq_some_iff.mp hfind with ⟨q, hplace, hdirectory⟩
          have hchildren := Store.children_eq_ok_iff.mpr ⟨q, hplace, hdirectory, rfl⟩
          generalize (files.namesUnder q).map _ = children at hchildren
          refine ⟨ordered children, ?_, ?_, pairwise_ordered _⟩
          · rw [filesIn, if_pos (Store.contains_iff.mpr ⟨_, hfind⟩), hchildren]
            rfl
          · intro p
            rw [mem_ordered_iff]
            constructor
            · rintro ⟨hmem, hsuffix⟩
              exact ⟨_, hchildren, hmem, hsuffix⟩
            · rintro ⟨paths, hchildren', hmem, hsuffix⟩
              rw [hchildren] at hchildren'
              cases hchildren'
              exact ⟨hmem, hsuffix⟩

theorem shown_eq_some_iff {s : Summary} :
    shown files p = some s ↔ ∃ g, loaded files p = .ok g ∧ s = g.summary p.stem (some p.text) := by
  rw [← summarized_eq_some_iff, shown]
  cases summarized files p with
  | error e => simp [Except.toOption]
  | ok o => simp [Except.toOption]

end Candidates

/-!
## One directory
-/

section Directory

variable {c c' : Catalog} {directory p p' : Path} {name : String} {g g' : Grammar} {s : Summary}

theorem isLoadable_iff :
    IsLoadable c directory name p g ↔
      IsCandidate c.files directory p ∧ p.stem = name ∧ loaded c.files p = .ok g := by
  rw [← load_on]
  constructor
  · intro h
    exact ⟨h.candidate, h.stem, h.loads⟩
  · rintro ⟨hcandidate, hstem, hloads⟩
    exact ⟨hcandidate, hstem, hloads⟩

theorem IsLast.unique (h : IsLast c directory name p g) (h' : IsLast c directory name p' g') :
    p = p' ∧ g = g' := by
  have hname : p.name = p'.name :=
    String.le_antisymm (h'.last p g h.loadable) (h.last p' g' h'.loadable)
  have hpath := h.loadable.candidate.eq_of_name_eq h'.loadable.candidate hname
  have hloads := h.loadable.loads
  rw [hpath, h'.loadable.loads] at hloads
  exact ⟨hpath, (Except.ok.inj hloads).symm⟩

/-- The summary of the last file of a stem in a directory. -/
def IsLastSummary (c : Catalog) (directory : Path) (s : Summary) : Prop :=
  ∃ p g, IsLast c directory s.name p g ∧ s = g.summary s.name (some p.text)

section Paths

variable {paths : List Path} (hpaths : ∀ p, p ∈ paths ↔ IsCandidate c.files directory p)
include hpaths

theorem mem_shown_iff :
    (p ∈ paths ∧ shown c.files p = some s ∧ s.name = name) ↔
      ∃ g, IsLoadable c directory name p g ∧ s = g.summary name (some p.text) := by
  simp only [isLoadable_iff, hpaths, shown_eq_some_iff]
  constructor
  · rintro ⟨hp, ⟨g, hload, rfl⟩, rfl⟩
    exact ⟨g, ⟨hp, rfl, hload⟩, rfl⟩
  · rintro ⟨g, ⟨hp, rfl, hload⟩, rfl⟩
    exact ⟨hp, ⟨g, hload, rfl⟩, rfl⟩

theorem find?_shown_eq_none_iff :
    (paths.filterMap (shown c.files)).reverse.find? (fun t => t.name == name) = none ↔
      ∀ p g, ¬ IsLoadable c directory name p g := by
  rw [List.find?_eq_none]
  constructor
  · intro hnone p g hloadable
    rcases (mem_shown_iff hpaths).mpr ⟨g, hloadable, rfl⟩ with ⟨hp, hshown, hname⟩
    apply hnone _ (List.mem_reverse.mpr (List.mem_filterMap.mpr ⟨p, hp, hshown⟩))
    simp [hname]
  · intro hnone s hs hname
    rcases List.mem_filterMap.mp (List.mem_reverse.mp hs) with ⟨p, hp, hshown⟩
    rcases (mem_shown_iff hpaths).mp ⟨hp, hshown, by simpa using hname⟩ with ⟨g, hloadable, _⟩
    exact hnone p g hloadable

theorem find?_shown_eq_some_iff (hsorted : paths.Pairwise fun a b => a.name ≤ b.name) :
    (paths.filterMap (shown c.files)).reverse.find? (fun t => t.name == s.name) = some s ↔
      IsLastSummary c directory s := by
  have hlast : ∀ t : Summary, (paths.filterMap (shown c.files)).reverse.find?
      (fun u => u.name == t.name) = some t → IsLastSummary c directory t := by
    intro t hfind
    rcases exists_last_of_find?_reverse (fun p : Path => String.le_refl p.name) hsorted hfind with
      ⟨p, hp, hshown, _, hbefore⟩
    rcases (mem_shown_iff hpaths).mp ⟨hp, hshown, rfl⟩ with ⟨g, hloadable, ht⟩
    refine ⟨p, g, ⟨hloadable, ?_⟩, ht⟩
    intro p' g' hloadable'
    rcases (mem_shown_iff hpaths).mpr ⟨g', hloadable', rfl⟩ with ⟨hp', hshown', hname⟩
    exact hbefore p' hp' _ hshown' (by simp [hname])
  constructor
  · exact hlast s
  · rintro ⟨p, g, hp, hs⟩
    cases hfind : (paths.filterMap (shown c.files)).reverse.find? fun t => t.name == s.name with
    | none => exact absurd hp.loadable ((find?_shown_eq_none_iff hpaths).mp hfind p g)
    | some t =>
        have hname : t.name = s.name := by
          simpa using List.find?_some hfind
        rw [← hname] at hfind hp hs
        rcases hlast t hfind with ⟨p', g', hp', ht⟩
        rcases hp.unique hp' with ⟨rfl, rfl⟩
        rw [hs, ← ht]

end Paths

theorem IsListable.exists_paths (h : c.IsListable) (hmem : directory ∈ c.directories) :
    ∃ paths : List Path, (∀ p, p ∈ paths ↔ IsCandidate c.files directory p)
      ∧ (paths.Pairwise fun a b => a.name ≤ b.name)
      ∧ summariesOf c.files directory = .ok (paths.filterMap (shown c.files)) := by
  rcases exists_filesIn (h.directories directory hmem) with ⟨paths, hfiles, hpaths, hsorted⟩
  refine ⟨paths, hpaths, hsorted, Catalog.summariesOf_eq hfiles ?_⟩
  intro p hp
  cases hload : loaded c.files p with
  | ok g => exact ⟨_, summarized_eq_some_iff.mpr ⟨g, hload, rfl⟩⟩
  | error e =>
      have hskipped := h.skipped directory hmem p ((hpaths p).mp hp) e (by rw [load_on, hload])
      rw [summarized_of_failed hload, if_pos hskipped]
      exact ⟨none, rfl⟩

end Directory

/-!
## Two directories
-/

section Listing

variable {c c' : Catalog} {s : Summary}

/-- The summary of the last file of a stem in the project or else in the library. -/
def IsListed (c : Catalog) (s : Summary) : Prop :=
  (∃ project ∈ c.project, IsLastSummary c project s) ∨
    (∀ project ∈ c.project, ∀ p g, ¬ IsLoadable c project s.name p g)
      ∧ IsLastSummary c c.library s

theorem IsListable.ofProject (h : c.IsListable) :
    ∃ summaries : List (List Summary), c.project.toList.mapM (summariesOf c.files) = .ok summaries
      ∧ (∀ name, summaries.flatten.reverse.find? (fun t => t.name == name) = none ↔
        ∀ project ∈ c.project, ∀ p g, ¬ IsLoadable c project name p g)
      ∧ ∀ s, summaries.flatten.reverse.find? (fun t => t.name == s.name) = some s ↔
        ∃ project ∈ c.project, IsLastSummary c project s := by
  cases hproject : c.project with
  | none => exact ⟨[], rfl, by simp, by simp⟩
  | some project =>
      have hmem : project ∈ c.directories := by
        rw [mem_directories_iff, hproject]
        exact List.mem_cons_of_mem _ (List.mem_singleton.mpr rfl)
      rcases h.exists_paths hmem with ⟨paths, hpaths, hsorted, hsummaries⟩
      refine ⟨[paths.filterMap (shown c.files)], ?_, ?_, ?_⟩
      · rw [Option.toList_some, List.mapM_cons, hsummaries]
        rfl
      · intro name
        rw [List.flatten_singleton, find?_shown_eq_none_iff hpaths]
        simp
      · intro s
        rw [List.flatten_singleton, find?_shown_eq_some_iff hpaths hsorted]
        simp

theorem pairwise_listed (met : List Summary) :
    ((met.foldl addSummary []).mergeSort fun a b => !(b.name < a.name)).Pairwise
      fun a b => a.name < b.name := by
  have hnodup := nodup_foldl_addSummary met
  generalize met.foldl addSummary [] = kept at hnodup
  have hdiffer : (kept.mergeSort fun a b => !(b.name < a.name)).Pairwise
      fun a b => a.name ≠ b.name := by
    apply List.pairwise_map.mp
    exact ((List.mergeSort_perm kept _).map Summary.name).nodup_iff.mpr hnodup
  have hsorted := pairwise_mergeSort_name Summary.name kept
  apply (hsorted.and hdiffer).imp
  intro a b h
  exact String.not_le.mp fun hle => h.2 (String.le_antisymm h.1 hle)

/-- A listing has the summary of the last file of each stem, the project first. -/
theorem IsListable.list_eq (h : c.IsListable) :
    ∃ listing, list.on c = (.ok listing, c) ∧ listing.Pairwise (fun a b => a.name < b.name)
      ∧ ∀ s, s ∈ listing ↔ IsListed c s := by
  rcases h.exists_paths (mem_directories_iff.mpr List.mem_cons_self) with
    ⟨paths, hpaths, hsorted, hlibrary⟩
  rcases h.ofProject with ⟨summaries, hmap, hnone, hsome⟩
  generalize hmet : paths.filterMap (shown c.files) ++ summaries.flatten = met
  have hlisted : listed c = .ok
      ((met.foldl addSummary []).mergeSort fun a b => !(b.name < a.name)) := by
    rw [listed, Catalog.met, List.mapM_cons, hlibrary, hmap, ← hmet]
    rfl
  exists (met.foldl addSummary []).mergeSort fun a b => !(b.name < a.name)
  refine ⟨?_, pairwise_listed met, ?_⟩
  · rw [← hlisted]
    exact list_answers
  · intro s
    have hlast := @mem_foldl_addSummary_append_iff s s.name (paths.filterMap (shown c.files))
      summaries.flatten
    rw [and_iff_left rfl, hmet] at hlast
    rw [List.mem_mergeSort, hlast, Option.or_eq_some_iff, hsome, hnone,
      find?_shown_eq_some_iff hpaths hsorted]
    rfl

theorem IsListable.exists_isLastSummary (h : c.IsListable) {directory p : Path} {name : String}
    {g : Grammar} (hmem : directory ∈ c.directories) (hloadable : IsLoadable c directory name p g) :
    ∃ s, s.name = name ∧ IsLastSummary c directory s := by
  rcases h.exists_paths hmem with ⟨paths, hpaths, hsorted, _⟩
  cases hfind : (paths.filterMap (shown c.files)).reverse.find? fun t => t.name == name with
  | none => exact absurd hloadable ((find?_shown_eq_none_iff hpaths).mp hfind p g)
  | some s =>
      have hname : s.name = name := by
        simpa using List.find?_some hfind
      rw [← hname] at hfind
      exact ⟨s, hname, (find?_shown_eq_some_iff hpaths hsorted).mp hfind⟩

theorem IsListed.exists_isLoadable (h : IsListed c s) :
    ∃ directory ∈ c.directories, ∃ p g, IsLoadable c directory s.name p g := by
  rcases h with ⟨project, hproject, p, g, hp, _⟩ | ⟨_, p, g, hp, _⟩
  · refine ⟨project, ?_, p, g, hp.loadable⟩
    rw [mem_directories_iff]
    exact List.mem_cons_of_mem _ (Option.mem_toList.mpr hproject)
  · exact ⟨c.library, mem_directories_iff.mpr List.mem_cons_self, p, g, hp.loadable⟩

theorem IsListable.exists_isListed (h : c.IsListable) {directory p : Path} {name : String}
    {g : Grammar} (hmem : directory ∈ c.directories) (hloadable : IsLoadable c directory name p g) :
    ∃ s, s.name = name ∧ IsListed c s := by
  by_cases hproject : ∃ project ∈ c.project, ∃ p g, IsLoadable c project name p g
  · rcases hproject with ⟨project, hproject, p, g, hloadable⟩
    have hmem : project ∈ c.directories :=
      mem_directories_iff.mpr (List.mem_cons_of_mem _ (Option.mem_toList.mpr hproject))
    rcases h.exists_isLastSummary hmem hloadable with ⟨s, hname, hs⟩
    exact ⟨s, hname, Or.inl ⟨project, hproject, hs⟩⟩
  · push Not at hproject
    rcases List.mem_cons.mp (mem_directories_iff.mp hmem) with rfl | hmem
    · rcases h.exists_isLastSummary (mem_directories_iff.mpr List.mem_cons_self) hloadable with
        ⟨s, rfl, hs⟩
      exact ⟨s, rfl, Or.inr ⟨hproject, hs⟩⟩
    · exact absurd hloadable (hproject directory (Option.mem_toList.mp hmem) p g)

theorem SameCandidates.isLoadable_iff {directory p : Path} {name : String} {g : Grammar}
    (h : SameCandidates c.files c'.files directory) :
    IsLoadable c' directory name p g ↔ IsLoadable c directory name p g := by
  rw [Catalog.isLoadable_iff, Catalog.isLoadable_iff, h.candidates]
  apply and_congr_right
  intro hcandidate
  have hfind := h.contents p hcandidate
  apply and_congr_right
  intro _
  constructor
  · intro hload
    rcases find?_of_loaded hload with ⟨bytes, hbytes⟩
    rw [loaded_eq_of_find? hbytes] at hload
    rw [hfind] at hbytes
    rw [loaded_eq_of_find? hbytes, hload]
  · intro hload
    rcases find?_of_loaded hload with ⟨bytes, hbytes⟩
    rw [loaded_eq_of_find? hbytes] at hload
    rw [← hfind] at hbytes
    rw [loaded_eq_of_find? hbytes, hload]

theorem SameCandidates.isLastSummary_iff {directory : Path}
    (h : SameCandidates c.files c'.files directory) :
    IsLastSummary c' directory s ↔ IsLastSummary c directory s := by
  have hlast : ∀ p g, IsLast c' directory s.name p g ↔ IsLast c directory s.name p g := by
    intro p g
    constructor
    · intro hp
      exact ⟨h.isLoadable_iff.mp hp.loadable,
        fun p' g' hp' => hp.last p' g' (h.isLoadable_iff.mpr hp')⟩
    · intro hp
      exact ⟨h.isLoadable_iff.mpr hp.loadable,
        fun p' g' hp' => hp.last p' g' (h.isLoadable_iff.mp hp')⟩
  unfold IsLastSummary
  simp only [hlast]

theorem isListed_congr (hproject : c'.project = c.project)
    (hsame : ∀ project ∈ c.project, SameCandidates c.files c'.files project)
    (h : ∃ project ∈ c.project, ∃ p g, IsLoadable c project s.name p g) :
    IsListed c' s ↔ IsListed c s := by
  rcases h with ⟨project, hmem, p, g, hloadable⟩
  rw [IsListed, IsListed, hproject, Option.mem_def.mp hmem]
  have hsame := hsame project hmem
  constructor
  · rintro (⟨project', hproject', hs⟩ | ⟨hnone, _⟩)
    · cases hproject'
      exact Or.inl ⟨project, rfl, hsame.isLastSummary_iff.mp hs⟩
    · exact absurd (hsame.isLoadable_iff.mpr hloadable) (hnone project rfl p g)
  · rintro (⟨project', hproject', hs⟩ | ⟨hnone, _⟩)
    · cases hproject'
      exact Or.inl ⟨project, rfl, hsame.isLastSummary_iff.mpr hs⟩
    · exact absurd hloadable (hnone project rfl p g)

/-- A listing has one summary for each stem with a file that can be loaded: that of the last file
of the project, whatever the library holds, or else that of the last file of the library. -/
theorem listing_puts_project_first (h : c.IsListable) :
    ∃ listing, list.on c = (.ok listing, c)
      ∧ listing.Pairwise (fun a b => a.name < b.name)
      ∧ (∀ name, (∃ s ∈ listing, s.name = name) ↔
        ∃ directory ∈ c.directories, ∃ p g, IsLoadable c directory name p g)
      ∧ (∀ s ∈ listing, (∃ project ∈ c.project, IsLastSummary c project s) ∨
        (∀ project ∈ c.project, ∀ p g, ¬ IsLoadable c project s.name p g)
          ∧ IsLastSummary c c.library s)
      ∧ ∀ c' : Catalog, c'.IsListable → c'.project = c.project →
        (∀ project ∈ c.project, SameCandidates c.files c'.files project) →
        ∃ listing', list.on c' = (.ok listing', c') ∧
          ∀ s, (∃ project ∈ c.project, ∃ p g, IsLoadable c project s.name p g) →
            (s ∈ listing' ↔ s ∈ listing) := by
  rcases h.list_eq with ⟨listing, hlist, hsorted, hmem⟩
  refine ⟨listing, hlist, hsorted, ?_, fun s hs => (hmem s).mp hs, ?_⟩
  · intro name
    constructor
    · rintro ⟨s, hs, rfl⟩
      exact ((hmem s).mp hs).exists_isLoadable
    · rintro ⟨directory, hdirectory, p, g, hloadable⟩
      rcases h.exists_isListed hdirectory hloadable with ⟨s, hname, hs⟩
      exact ⟨s, (hmem s).mpr hs, hname⟩
  · intro c' h' hproject hsame
    rcases h'.list_eq with ⟨listing', hlist', _, hmem'⟩
    refine ⟨listing', hlist', ?_⟩
    intro s hs
    rw [hmem, hmem']
    exact isListed_congr hproject hsame hs

end Listing

def shadowed : Catalog where
  files := ⟨[(⟨.here, ["library"]⟩, .directory),
    (⟨.here, ["library", "a.json"]⟩, .file (Text.encodeUtf8 plainestText)),
    (⟨.here, ["project"]⟩, .directory),
    (⟨.here, ["project", "a.json"]⟩, .file [0xff])]⟩
  library := ⟨.here, ["library"]⟩
  project := some ⟨.here, ["project"]⟩
  kept := []

theorem shadowed_loaded :
    loaded shadowed.files ⟨.here, ["library", "a.json"]⟩ = .ok plainest
      ∧ loaded shadowed.files ⟨.here, ["project", "a.json"]⟩ =
        .error (.encoding ⟨0, [0xff], .invalidStart⟩) := by
  constructor
  · have hfind : shadowed.files.find? ⟨.here, ["library", "a.json"]⟩ =
        some (.file (Text.encodeUtf8 plainestText)) := rfl
    rw [loaded_eq_of_find? hfind]
    exact decoded_plainestText
  · rfl

theorem shadowed_children {directory : Path} (h : directory ∈ shadowed.directories) :
    directory = ⟨.here, ["project"]⟩
        ∧ shadowed.files.children directory = .ok [⟨.here, ["project", "a.json"]⟩]
      ∨ directory = ⟨.here, ["library"]⟩
        ∧ shadowed.files.children directory = .ok [⟨.here, ["library", "a.json"]⟩] := by
  have hcases : directory = ⟨.here, ["project"]⟩ ∨ directory = ⟨.here, ["library"]⟩ := by
    simpa [directories, shadowed] using h
  rcases hcases with rfl | rfl
  · exact Or.inl ⟨rfl, rfl⟩
  · exact Or.inr ⟨rfl, rfl⟩

theorem shadowed_isListable : shadowed.IsListable := by
  constructor
  · intro d hd content hfile
    rcases shadowed_children hd with ⟨rfl, _⟩ | ⟨rfl, _⟩
    · cases hfile
    · cases hfile
  · rintro d hd p ⟨paths, hchildren, hmem, _⟩ e he
    rw [load_on] at he
    rcases shadowed_children hd with ⟨_, hproject⟩ | ⟨_, hlibrary⟩
    · rw [hproject] at hchildren
      cases hchildren
      rw [List.mem_singleton.mp hmem, shadowed_loaded.2] at he
      cases he
      rfl
    · rw [hlibrary] at hchildren
      cases hchildren
      rw [List.mem_singleton.mp hmem, shadowed_loaded.1] at he
      cases he

theorem shadowed_isLoadable :
    IsLoadable shadowed ⟨.here, ["library"]⟩ "a" ⟨.here, ["library", "a.json"]⟩ plainest :=
  isLoadable_iff.mpr ⟨⟨_, rfl, List.mem_singleton.mpr rfl, by decide⟩, by decide +kernel,
    shadowed_loaded.1⟩

/-- There the stem is listed, as the library has a file of it that can be loaded. -/
theorem shadowed_listing_has_stem :
    shadowed.IsListable ∧ ∃ listing, list.on shadowed = (.ok listing, shadowed)
      ∧ ∃ s ∈ listing, s.name = "a" := by
  rcases listing_puts_project_first shadowed_isListable with ⟨listing, hlist, _, hnames, _⟩
  refine ⟨shadowed_isListable, listing, hlist, (hnames "a").mpr ⟨_, ?_, _, _, shadowed_isLoadable⟩⟩
  simp [directories, shadowed]

end Catalog
end TextMate
