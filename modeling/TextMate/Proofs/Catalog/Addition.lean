import TextMate.Proofs.Catalog.Listing
import TextMate.Proofs.Files.Addition

/-!
# Listings with one more file

A file that cannot be loaded is put into a directory of a catalog.  All other files
are loaded as before, and directories that are new are left out of a listing.  So
the listing is as before if it leaves out the file as well, and else it fails as
the file does.
-/

namespace TextMate
namespace Catalog

open Files

/-!
## Files in order
-/

section Order

variable {old extra : List Path} {keep : Path → Bool}

def ordered (paths : List Path) : List Path :=
  (paths.filter fun p => suffixes.contains (Text.lowercase p.suffix)).mergeSort
    fun a b => !(b.name < a.name)

theorem mem_ordered_iff {paths : List Path} {p : Path} :
    p ∈ ordered paths ↔ p ∈ paths ∧ Text.lowercase p.suffix ∈ suffixes := by
  rw [ordered, List.mem_mergeSort, List.mem_filter, List.contains_iff_mem]

theorem pairwise_mergeSort_name {α : Type} (name : α → String) (as : List α) :
    (as.mergeSort fun a b => !(name b < name a)).Pairwise fun a b => name a ≤ name b := by
  have hle : ∀ a b : α, (!decide (name b < name a)) = true ↔ name a ≤ name b := by
    intro a b
    rw [Bool.not_eq_true', decide_eq_false_iff_not, String.not_lt]
  have hsorted := @List.pairwise_mergeSort α (fun a b => !(name b < name a))
    (fun a b c hab hbc => (hle a c).mpr (String.le_trans ((hle a b).mp hab) ((hle b c).mp hbc)))
    (fun a b => by
      rw [Bool.or_eq_true, hle, hle]
      exact String.le_total _ _)
    as
  exact hsorted.imp fun h => (hle _ _).mp h

theorem pairwise_ordered (paths : List Path) :
    (ordered paths).Pairwise fun a b => a.name ≤ b.name :=
  pairwise_mergeSort_name Path.name _

theorem filter_ordered_append (hsame : ∀ a ∈ old, ∀ b ∈ old, a.name = b.name → a = b)
    (hextra : ∀ p ∈ extra, keep p = false) :
    (ordered (old ++ extra)).filter keep = (ordered old).filter keep := by
  have hmem : ∀ p ∈ (ordered (old ++ extra)).filter keep, p ∈ old := by
    intro p hp
    rcases List.mem_filter.mp hp with ⟨hp, hkeep⟩
    rcases List.mem_append.mp (mem_ordered_iff.mp hp).1 with hp | hp
    · exact hp
    · rw [hextra p hp] at hkeep
      cases hkeep
  -- the two are permutations of each other, and both ascend by names that differ
  refine @List.Perm.eq_of_pairwise Path (fun a b => a.name ≤ b.name) _ _ ?_ ?_ ?_ ?_
  · intro a b ha hb hab hba
    have hb' := (mem_ordered_iff.mp (List.mem_filter.mp hb).1).1
    exact hsame a (hmem a ha) b hb' (String.le_antisymm hab hba)
  · exact (pairwise_ordered _).filter _
  · exact (pairwise_ordered _).filter _
  · have hnone : (extra.filter fun p => suffixes.contains (Text.lowercase p.suffix)).filter keep =
        [] := by
      rw [List.filter_eq_nil_iff]
      intro p hp
      simp [hextra p (List.mem_filter.mp hp).1]
    apply ((List.mergeSort_perm _ _).filter keep).trans
    apply List.Perm.trans _ ((List.mergeSort_perm _ _).filter keep).symm
    rw [List.filter_append, List.filter_append, hnone, List.append_nil]

theorem filterMap_ordered_append {β : Type} {g g' : Path → Option β}
    (hsame : ∀ a ∈ old, ∀ b ∈ old, a.name = b.name → a = b)
    (hold : ∀ p ∈ old, g' p = g p) (hextra : ∀ p ∈ extra, g' p = none) :
    (ordered (old ++ extra)).filterMap g' = (ordered old).filterMap g := by
  have hkeep : ∀ paths : List Path,
      paths.filterMap g' = (paths.filter fun p => (g' p).isSome).filterMap g' := by
    intro paths
    rw [List.filterMap_filter]
    apply List.filterMap_congr
    intro p _
    cases g' p <;> rfl
  rw [hkeep, filter_ordered_append hsame (by simpa using hextra), ← hkeep]
  apply List.filterMap_congr
  intro p hp
  exact hold p (mem_ordered_iff.mp hp).1

end Order

/-!
## Loading again
-/

section Loading

variable {files files' : Store} {p directory : Path} {paths : List Path} {e : Failure}
  {extras : List (Files.Place × Entry)}

theorem loaded_of_directory (h : files.find? p = some .directory) :
    loaded files p = .error (.file ⟨.isDirectory, p⟩) := by
  rw [loaded, Store.read_of_directory h]
  rfl

theorem summarized_of_missing (h : files.find? p = none) : summarized files p = .ok none := by
  have hread : ∃ error, files.read p = .error error := by
    unfold Store.read
    unfold Store.find? at h
    cases hplace : files.place p with
    | error error => exact ⟨error, rfl⟩
    | ok q =>
        rw [hplace] at h
        simp only [bind, Except.bind, show files.get? q = none from h]
        exact ⟨_, rfl⟩
  rcases hread with ⟨error, hread⟩
  rw [summarized, loaded, hread]
  rfl

theorem summarized_of_directory (h : files.find? p = some .directory) :
    summarized files p = .ok none := by
  rw [summarized, loaded_of_directory h]
  rfl

theorem summarized_congr (h : files'.find? p = files.find? p) :
    summarized files' p = summarized files p := by
  cases hfind : files.find? p with
  | none =>
      rw [hfind] at h
      rw [summarized_of_missing h, summarized_of_missing hfind]
  | some entry =>
      rw [hfind] at h
      cases entry with
      | directory => rw [summarized_of_directory h, summarized_of_directory hfind]
      | file bytes =>
          rw [summarized, summarized, loaded_eq_of_find? h, loaded_eq_of_find? hfind]

theorem summarized_of_failed (h : loaded files p = .error e) :
    summarized files p = if e.isSkipped then .ok none else .error e := by
  rw [summarized, h]
  rfl

def shown (files : Store) (p : Path) : Option Summary :=
  (summarized files p).toOption.join

theorem summariesOf_eq (hfiles : filesIn files directory = .ok paths)
    (h : ∀ p ∈ paths, ∃ o, summarized files p = .ok o) :
    summariesOf files directory = .ok (paths.filterMap (shown files)) := by
  have hmap : paths.mapM (fun p => summarized files p) = .ok (paths.map (shown files)) := by
    apply mapM_eq_ok_map
    intro p hp
    rcases h p hp with ⟨o, ho⟩
    rw [shown, ho]
    cases o <;> rfl
  rw [summariesOf, hfiles]
  simp only [Except.bind, hmap, Except.map]
  rw [List.filterMap_map]
  rfl

theorem ok_of_summariesOf {summaries : List Summary} (hfiles : filesIn files directory = .ok paths)
    (h : summariesOf files directory = .ok summaries) :
    ∀ p ∈ paths, ∃ o, summarized files p = .ok o := by
  cases hmap : paths.mapM (fun p => summarized files p) with
  | ok os => exact ok_of_mapM_eq_ok hmap
  | error e =>
      rw [summariesOf, hfiles] at h
      simp only [Except.bind, hmap] at h
      cases h

end Loading

/-!
## Files that cannot be loaded
-/

/-- Directories are new and one file, which cannot be loaded for one reason. -/
structure AddsUnloadable (files files' : Store) (name : String) (e : Failure)
    (extras : List (Files.Place × Entry)) : Prop where
  closed : files.IsClosed
  closed' : files'.IsClosed
  adds : files.Adds files' extras
  unloadable : ∀ q other bytes, (Files.Place.under q other, .file bytes) ∈ extras → other = name
    ∧ ∀ p : Path, p.name = name → decoded p.format bytes = .error e

section Unloadable

variable {files files' : Store} {directory : Path} {name : String} {paths : List Path}
  {e : Failure} {extras : List (Files.Place × Entry)} {summaries : List Summary}

theorem AddsUnloadable.summarized_new (h : AddsUnloadable files files' name e extras)
    {q : Files.Place} {other : String} (hplace : files'.place directory = .ok q)
    (hdirectory : files'.get? q = some .directory)
    (hother : other ∈ (Store.mk extras).namesUnder q) :
    let p : Path := ⟨directory.base, directory.names ++ [other]⟩
    summarized files' p = .ok none
      ∨ summarized files' p = .error e ∧ e.isSkipped = false ∧ p.name = name := by
  intro p
  rcases h.adds.find?_of_mem_namesUnder hplace hdirectory hother with ⟨entry, hmem, hfind⟩
  cases entry with
  | directory => exact Or.inl (summarized_of_directory hfind)
  | file bytes =>
      rcases h.unloadable q other bytes hmem with ⟨rfl, hfails⟩
      have hname : p.name = other := by
        simp [p, Path.name]
      have hload := hfails p hname
      rw [← loaded_eq_of_find? hfind] at hload
      rw [summarized_of_failed hload]
      cases hskipped : e.isSkipped with
      | true => exact Or.inl rfl
      | false => exact Or.inr ⟨rfl, rfl, hname⟩

theorem ordered_of_children {old : List Path} (hfiles : filesIn files directory = .ok paths)
    (hold : files.children directory = .ok old ∨ files.contains directory = false ∧ old = []) :
    paths = ordered old ∧ ∀ p ∈ old, ∃ other q, p = ⟨directory.base, directory.names ++ [other]⟩
      ∧ files.place directory = .ok q ∧ files.get? q = some .directory
      ∧ files.get? (q.under other) ≠ none := by
  rcases hold with hchildren | ⟨hmissing, rfl⟩
  · rcases Store.children_eq_ok hchildren with ⟨q, hplace, hdirectory, hmem⟩
    have hcontains : files.contains directory = true :=
      Store.contains_iff.mpr ⟨_, Store.find?_eq_some_iff.mpr ⟨q, hplace, hdirectory⟩⟩
    rw [filesIn, if_pos hcontains, hchildren] at hfiles
    cases hfiles
    refine ⟨rfl, ?_⟩
    intro p hp
    rcases (hmem p).mp hp with ⟨other, hp, hthere⟩
    exact ⟨other, q, hp, hplace, hdirectory, hthere⟩
  · rw [filesIn, if_neg (by simp [hmissing])] at hfiles
    cases hfiles
    refine ⟨by simp [ordered], ?_⟩
    intro p hp
    cases hp

theorem AddsUnloadable.filesIn_eq (h : AddsUnloadable files files' name e extras)
    (hsettled : files.IsSettled directory)
    (hnofile : ∀ bytes, files'.find? directory ≠ some (.file bytes))
    (hfiles : filesIn files directory = .ok paths) :
    ∃ old extra, paths = ordered old ∧ filesIn files' directory = .ok (ordered (old ++ extra))
      ∧ (∀ a ∈ old, ∀ b ∈ old, a.name = b.name → a = b)
      ∧ (∀ p ∈ old, summarized files' p = summarized files p)
      ∧ ∀ p ∈ extra, summarized files' p = .ok none
        ∨ summarized files' p = .error e ∧ e.isSkipped = false ∧ p.name = name := by
  by_cases hcontains' : files'.contains directory = true
  · rcases Store.contains_iff.mp hcontains' with ⟨entry, hfind'⟩
    rcases Store.find?_eq_some_iff.mp hfind' with ⟨q', hq', hget'⟩
    have hentry : entry = .directory := by
      cases entry with
      | directory => rfl
      | file bytes => exact absurd hfind' (hnofile bytes)
    rw [hentry] at hget'
    have hchildren' := Store.children_eq_ok_iff.mpr ⟨q', hq', hget', rfl⟩
    rcases h.adds.children_eq h.closed h.closed' hsettled hchildren' with
      ⟨q, old, hplace', hdirectory', hpaths, hold⟩
    rw [hpaths] at hchildren'
    rcases ordered_of_children hfiles hold with ⟨hordered, hchild⟩
    refine ⟨old, ((Store.mk extras).namesUnder q).map
      (fun other => ⟨directory.base, directory.names ++ [other]⟩), hordered, ?_, ?_, ?_, ?_⟩
    · rw [filesIn, if_pos hcontains', hchildren']
      rfl
    · intro a ha b hb hab
      rcases hchild a ha with ⟨n, _, rfl, _⟩
      rcases hchild b hb with ⟨m, _, rfl, _⟩
      have hnm : n = m := by
        simpa [Path.name] using hab
      rw [hnm]
    · intro p hp
      rcases hchild p hp with ⟨n, r, rfl, hplace, hdirectory, hthere⟩
      exact summarized_congr (h.adds.find?_child h.closed hplace hdirectory hthere)
    · intro p hp
      rcases List.mem_map.mp hp with ⟨other, hother, rfl⟩
      exact h.summarized_new hplace' hdirectory' hother
  · have hcontains : ¬ files.contains directory = true := by
      intro hcontains
      exact hcontains' (h.adds.grows.contains hcontains)
    rw [filesIn, if_neg hcontains] at hfiles
    cases hfiles
    refine ⟨[], [], by simp [ordered], ?_, by simp, by simp, by simp⟩
    rw [filesIn, if_neg hcontains']
    simp [ordered]

/-- The summaries from a directory are as before, unless the file is in it and fails. -/
theorem AddsUnloadable.summariesOf_cases (h : AddsUnloadable files files' name e extras)
    (hsettled : files.IsSettled directory)
    (hnofile : ∀ bytes, files'.find? directory ≠ some (.file bytes))
    (hsummaries : summariesOf files directory = .ok summaries) :
    ∃ paths', filesIn files' directory = .ok paths'
      ∧ ((∀ p ∈ paths', ∃ o, summarized files' p = .ok o)
          ∧ summariesOf files' directory = .ok summaries
        ∨ (∃ p ∈ paths', e.isSkipped = false ∧ p.name = name)
          ∧ summariesOf files' directory = .error e) := by
  cases hfiles : filesIn files directory with
  | error error =>
      rw [summariesOf, hfiles] at hsummaries
      cases hsummaries
  | ok paths =>
      have hok := ok_of_summariesOf hfiles hsummaries
      rcases h.filesIn_eq hsettled hnofile hfiles with
        ⟨old, extra, rfl, hfiles', hsame, hold, hextra⟩
      refine ⟨_, hfiles', ?_⟩
      have hmem : ∀ p ∈ ordered (old ++ extra), (∃ o, summarized files' p = .ok o)
          ∨ summarized files' p = .error e ∧ e.isSkipped = false ∧ p.name = name := by
        intro p hp
        rcases mem_ordered_iff.mp hp with ⟨hp, hsuffix⟩
        rcases List.mem_append.mp hp with hp | hp
        · rw [hold p hp]
          exact Or.inl (hok p (mem_ordered_iff.mpr ⟨hp, hsuffix⟩))
        · rcases hextra p hp with hnone | herror
          · exact Or.inl ⟨none, hnone⟩
          · exact Or.inr herror
      rcases mapM_of_one_failure fun p hp => (hmem p hp).imp id And.left with
        hok' | ⟨⟨p, hp, herror⟩, hmap⟩
      · refine Or.inl ⟨hok', ?_⟩
        rw [summariesOf_eq hfiles' hok', ← hsummaries, summariesOf_eq hfiles hok]
        apply congrArg Except.ok
        apply filterMap_ordered_append hsame
        · intro p hp
          rw [shown, shown, hold p hp]
        · intro p hp
          rcases hextra p hp with hnone | ⟨herror, _⟩
          · rw [shown, hnone]
            rfl
          · rw [shown, herror]
            rfl
      · rcases hmem p hp with ⟨o, ho⟩ | ⟨_, hreason⟩
        · rw [herror] at ho
          cases ho
        · refine Or.inr ⟨⟨p, hp, hreason⟩, ?_⟩
          rw [summariesOf, hfiles']
          simp only [Except.bind, hmap]
          rfl

end Unloadable

/-!
## Listings
-/

section Listing

variable {c : Catalog} {directory : Path} {name : String} {bytes : List UInt8} {files : Store}
  {listing : List Summary} {e : Failure}

theorem addsUnloadable_of_saves (hclosed : c.files.IsClosed)
    (hsettled : c.files.IsSettled directory) (hname : IsName name)
    (hfresh : c.files.contains (directory.join name) = false)
    (hsaves : c.files.Saves files (directory.join name) bytes)
    (hload : loaded files (directory.join name) = .error e) :
    ∃ extras, AddsUnloadable c.files files name e extras := by
  rcases hsaves.adds hclosed hsettled hname hfresh with ⟨hclosed', places, hadds⟩
  refine ⟨_, hclosed, hclosed', hadds, ?_⟩
  intro q other content hmem
  rcases List.mem_append.mp hmem with hmem | hmem
  · rcases List.mem_map.mp hmem with ⟨r, _, heq⟩
    cases heq
  · rcases Prod.mk.inj (List.mem_singleton.mp hmem) with ⟨hplace, hcontent⟩
    cases hcontent
    rcases Files.Place.under_inj hplace with ⟨_, hother⟩
    refine ⟨hother, ?_⟩
    intro p hp
    rw [loaded_eq_of_find? hsaves.find?] at hload
    rw [← hload, format_eq_of_name_eq (hp.trans (hname.name_join directory).symm)]

theorem join_mem_filesIn {paths : List Path} {entry : Entry}
    (hfiles : filesIn files directory = .ok paths) (hname : IsName name)
    (hfind : files.find? (directory.join name) = some entry)
    (hsuffix : Text.lowercase (directory.join name).suffix ∈ suffixes) :
    directory.join name ∈ paths := by
  rcases Store.find?_eq_some_iff.mp hfind with ⟨r, hplace, hget⟩
  rcases (Store.place_join_iff hname).mp hplace with ⟨q, hq, hdirectory, rfl⟩
  exact (mem_filesIn_iff hfiles).mpr
    ⟨q, name, hq, hdirectory, by rw [hget]; exact Option.some_ne_none _, hname.join_eq directory,
      hsuffix⟩

theorem mem_directories_iff {d : Path} :
    d ∈ c.directories ↔ d ∈ c.library :: c.project.toList := by
  rw [directories, List.mem_append, List.mem_singleton, List.mem_cons, or_comm]

theorem summariesOf_of_listed (hlist : listed c = .ok listing) {d : Path}
    (hd : d ∈ c.directories) : ∃ summaries, summariesOf c.files d = .ok summaries := by
  cases hmet : (c.library :: c.project.toList).mapM (summariesOf c.files) with
  | ok summaries => exact ok_of_mapM_eq_ok hmet d (mem_directories_iff.mp hd)
  | error e =>
      rw [listed, met, hmet] at hlist
      cases hlist

theorem listed_congr (h : ∀ d ∈ c.directories, summariesOf files d = summariesOf c.files d) :
    listed { c with files := files } = listed c := by
  rw [listed, met, listed, met]
  dsimp only
  rw [mapM_congr_of_mem fun d hd => h d (mem_directories_iff.mpr hd)]

theorem listed_of_error
    (h : ∀ d ∈ c.directories, (∃ summaries, summariesOf c.files d = .ok summaries)
      ∨ summariesOf c.files d = .error e)
    (hdirectory : directory ∈ c.directories) (hfails : summariesOf c.files directory = .error e) :
    listed c = .error e := by
  rcases mapM_of_one_failure fun d hd => h d (mem_directories_iff.mpr hd) with hok | ⟨_, hmet⟩
  · rcases hok directory (mem_directories_iff.mp hdirectory) with ⟨summaries, hsummaries⟩
    rw [hfails] at hsummaries
    cases hsummaries
  · rw [listed, met, hmet]
    rfl

/-- With one more file that cannot be loaded a listing is as before, if it leaves the file out or
the file is not named like a grammar, and fails as the file does otherwise. -/
theorem listing_with_unloadable_file (hclosed : c.files.IsClosed)
    (hsettled : ∀ d ∈ c.directories, c.files.IsSettled d) (hdirectory : directory ∈ c.directories)
    (hname : IsName name) (hlist : (list.on c).1 = .ok listing)
    (hfresh : c.files.contains (directory.join name) = false)
    (hsaves : c.files.Saves files (directory.join name) bytes)
    (hnofile : ∀ d ∈ c.directories, ∀ content, files.find? d ≠ some (.file content))
    (hload : ((load (directory.join name)).on { c with files := files }).1 = .error e) :
    (list.on { c with files := files }).1 =
      if e.isSkipped = true ∨ Text.lowercase (directory.join name).suffix ∉ suffixes then
        .ok listing
      else .error e := by
  rw [show list.on c = _ from list_answers] at hlist
  rw [show (load _).on { c with files := files } = _ from load_answers _] at hload
  rw [show list.on { c with files := files } = _ from list_answers]
  rcases addsUnloadable_of_saves hclosed (hsettled directory hdirectory) hname hfresh hsaves
    hload with ⟨extras, hadds⟩
  have hcases : ∀ d ∈ c.directories, ∃ paths', filesIn files d = .ok paths'
      ∧ ((∀ p ∈ paths', ∃ o, summarized files p = .ok o)
          ∧ summariesOf files d = summariesOf c.files d
        ∨ (∃ p ∈ paths', e.isSkipped = false ∧ p.name = name)
          ∧ summariesOf files d = .error e) := by
    intro d hd
    rcases summariesOf_of_listed hlist hd with ⟨summaries, hsummaries⟩
    rw [hsummaries]
    exact hadds.summariesOf_cases (hsettled d hd) (hnofile d hd) hsummaries
  by_cases hgood : e.isSkipped = true ∨ Text.lowercase (directory.join name).suffix ∉ suffixes
  · rw [if_pos hgood, ← hlist]
    apply listed_congr
    intro d hd
    rcases hcases d hd with ⟨paths', hfiles, ⟨_, hsame⟩ | ⟨⟨p, hp, hskipped, hp'⟩, _⟩⟩
    · exact hsame
    · -- a file that fails a listing is not skipped, and it is named like a grammar
      rcases hgood with hskipped' | hsuffix
      · rw [hskipped] at hskipped'
        cases hskipped'
      · rcases (mem_filesIn_iff hfiles).mp hp with ⟨_, _, _, _, _, _, hsuffix'⟩
        rw [suffix_eq_of_name_eq (hp'.trans (hname.name_join directory).symm)] at hsuffix'
        exact absurd hsuffix' hsuffix
  · rw [if_neg hgood]
    rw [not_or, Bool.not_eq_true, not_not] at hgood
    apply listed_of_error (c := { c with files := files }) _ hdirectory
    · rcases hcases directory hdirectory with ⟨paths', hfiles, ⟨hok, _⟩ | ⟨_, hfails⟩⟩
      · rcases hok _ (join_mem_filesIn hfiles hname hsaves.find? hgood.2) with ⟨o, ho⟩
        rw [summarized_of_failed hload, hgood.1] at ho
        cases ho
      · exact hfails
    · intro d hd
      rcases hcases d hd with ⟨_, _, ⟨_, hsame⟩ | ⟨_, herror⟩⟩
      · dsimp only
        rw [hsame]
        exact Or.inl (summariesOf_of_listed hlist hd)
      · exact Or.inr herror

end Listing

/-!
## A file that hides a library
-/

def wrongTruth : String :=
  "!!bool x"

theorem read_wrongTruth : Yaml.read wrongTruth = .error (.notBool [120]) := by
  let start : Yaml.Mark := ⟨0, 0, 0⟩
  let stop : Yaml.Mark := ⟨8, 0, 8⟩
  have htokens : Yaml.tokenize wrongTruth.toList =
      ([⟨.streamStart, start, start⟩, ⟨.tag (some "!!") "bool", start, ⟨6, 0, 6⟩⟩,
        ⟨.scalar ⟨[120], true⟩, ⟨7, 0, 7⟩, stop⟩, ⟨.streamEnd, stop, stop⟩], none) := by
    rfl
  have hdocument : Yaml.Document.ofText? wrongTruth =
      .ok (some ⟨#[⟨.bool, .scalar [120], start⟩], 0⟩) := by
    rw [Yaml.Document.ofText?, htokens]
    dsimp only
    rw [Yaml.NodeReader.readStream]
    simp only [Yaml.NodeReader.peek, bind, Except.bind, List.drop_one, List.tail_cons, pure,
      Except.pure, Yaml.NodeReader.readNode, Yaml.NodeReader.properties]
    rfl
  rw [Yaml.read, hdocument]
  rfl

theorem decoded_wrongTruth :
    decoded .yaml (Text.encodeUtf8 wrongTruth) =
      .error (.source (.yaml wrongTruth (.notBool [120]))) := by
  have htext : textOf (Text.encodeUtf8 wrongTruth) = .ok wrongTruth :=
    textOf_encodeUtf8 (by decide +kernel)
  rw [decoded, htext]
  dsimp only [Except.bind]
  rw [Grammar.ofText, Format.read, read_wrongTruth]
  rfl

def wrongFiles : Store :=
  ⟨holding.files.entries ++
    [(⟨.here, ["library", "b.yaml"]⟩, .file (Text.encodeUtf8 wrongTruth))]⟩

theorem wrongFiles_saves :
    holding.files.Saves wrongFiles ⟨.here, ["library", "b.yaml"]⟩ (Text.encodeUtf8 wrongTruth) :=
  ⟨rfl, rfl⟩

theorem wrongFiles_load :
    ((load ⟨.here, ["library", "b.yaml"]⟩).on { holding with files := wrongFiles }).1 =
      .error (.source (.yaml wrongTruth (.notBool [120]))) := by
  rw [show (load _).on { holding with files := wrongFiles } = _ from load_answers _]
  dsimp only
  rw [loaded_eq_of_find? wrongFiles_saves.find?]
  exact decoded_wrongTruth

/-- That document hides the grammar of the library. -/
theorem wrongTruth_hides_listing :
    holding.files.IsClosed
      ∧ (∀ d ∈ holding.directories, holding.files.IsSettled d)
      ∧ (list.on holding).1 = .ok [plainest.summary "a" (some "library/a.json")]
      ∧ holding.files.contains ⟨.here, ["library", "b.yaml"]⟩ = false
      ∧ holding.files.Saves wrongFiles ⟨.here, ["library", "b.yaml"]⟩
        (Text.encodeUtf8 wrongTruth)
      ∧ (list.on { holding with files := wrongFiles }).1 =
        .error (.source (.yaml wrongTruth (.notBool [120]))) := by
  have hmem : ∀ d ∈ holding.directories, d = ⟨.here, ["library"]⟩ := by
    simp [directories, holding]
  have hclosed : holding.files.IsClosed := Store.isClosed_of_entries (by decide)
  have hsettled : ∀ d ∈ holding.directories, holding.files.IsSettled d := by
    intro d hd
    rw [hmem d hd]
    exact Or.inl rfl
  have hnofile : ∀ d ∈ holding.directories, ∀ content,
      wrongFiles.find? d ≠ some (.file content) := by
    intro d hd content
    rw [hmem d hd, show wrongFiles.find? ⟨.here, ["library"]⟩ = some .directory from rfl]
    simp
  have hlist := @listing_with_unloadable_file holding ⟨.here, ["library"]⟩ "b.yaml" _ _ _ _
    hclosed hsettled List.mem_cons_self (by constructor <;> decide) holding_list rfl
    wrongFiles_saves hnofile wrongFiles_load
  rw [if_neg (by decide +kernel)] at hlist
  exact ⟨hclosed, hsettled, holding_list, rfl, wrongFiles_saves, hlist⟩

end Catalog
end TextMate
