import TextMate.Proofs.Catalog.Copying
import TextMate.Proofs.Grammar.Rerendering

/-!
# Kept grammars

A catalog keeps the grammars that were asked for.  Copying a grammar into the
project makes a new file there, which comes before files of the library.  Still
what is kept under a name is always what the file of the name holds: the new file
is found under its own name only, and that name is forgotten.
-/

namespace TextMate
namespace Catalog

open Files

/-!
## The invariant
-/

/-- The library is not above the project: the directories of a catalog stand apart, in a
closed store and at the end of paths that go on leading there. -/
structure StandsApart (c : Catalog) : Prop where
  closed : c.files.IsClosed
  settled : ∀ project ∈ c.project, c.files.IsSettled project
  apart : ∀ project ∈ c.project, ∀ q, c.files.place c.library = .ok q →
    q.IsOnWayTo (c.files.home project) → q = c.files.home project

/-- Directories whose paths go down only stand apart if the path of the project does not go on
from that of the library. -/
theorem standsApart_of_plain {c : Catalog} (hclosed : c.files.IsClosed)
    (hlibrary : ".." ∉ c.library.names) (hproject : ∀ project ∈ c.project, ".." ∉ project.names)
    (h : ∀ project ∈ c.project, c.library.base = project.base →
      ¬ c.library.names <+: project.names) : c.StandsApart := by
  constructor
  · exact hclosed
  · intro project hmem
    exact Or.inr (hproject project hmem)
  · rintro project hmem q hq ⟨hbase, hprefix⟩
    rw [← Store.home_eq_of_place hq, hclosed.home_plain hlibrary,
      hclosed.home_plain (hproject project hmem)] at hbase hprefix
    exact absurd hprefix (h project hmem hbase)

/-- What is kept under a name is what the file of the name holds. -/
def IsCoherent (c : Catalog) : Prop :=
  ∀ e ∈ c.kept, ∃ p, c.findFile? e.1 = some p ∧ (load p).Answers c (.ok e.2)

theorem load_answers_iff {c : Catalog} {p : Path} {g : Grammar} :
    (load p).Answers c (.ok g) ↔ loaded c.files p = .ok g := by
  constructor
  · intro h
    exact (Prod.mk.inj ((load_answers p).symm.trans h)).1
  · intro h
    rw [← h]
    exact load_answers p

theorem IsCoherent.of_sameFor {c c' : Catalog} (h : c.IsCoherent)
    (hsame : ∀ e ∈ c'.kept, e ∈ c.kept ∧ IsStem e.1 ∧ SameFor c c' e.1) : c'.IsCoherent := by
  intro e he
  rcases hsame e he with ⟨hmem, hstem, hfor⟩
  rcases h e hmem with ⟨p, hfind, hload⟩
  rw [load_answers_iff] at hload
  exists p
  constructor
  · rw [hfor.findFile?_eq hstem, hfind]
  · rw [load_answers_iff]
    exact hfor.loaded_eq hfind hload

section Copying

variable {c : Catalog} {files : Store} {new : Files.Place → Prop} {name : String} {project : Path}

/-- New entries that stand neither in the library nor in the project under a name leave all that
is found under that name. -/
theorem sameFor_of_grows (h : c.StandsApart) (hproject : c.project = some project)
    {library : Files.Place} (hlibrary : c.files.place c.library = .ok library)
    (hdirectory : c.files.get? library = some .directory)
    (hgrows : c.files.Grows files new) (hclosed : files.IsClosed) (hname : IsStem name)
    (hold : ∀ suffix ∈ suffixes, ¬ new (library.under (name ++ suffix))
      ∧ ¬ new ((c.files.home project).under (name ++ suffix)))
    (kept : List (String × Grammar)) :
    SameFor c { c with files := files, kept := kept } name := by
  have hsettled := h.settled project hproject
  have hhome := hgrows.home_eq h.closed hclosed hsettled
  constructor
  · rfl
  · intro directory hmem suffix hsuffix
    have hisName := hname.isName hsuffix
    rw [directories, hproject, Option.toList_some, List.singleton_append, List.mem_cons,
      List.mem_singleton] at hmem
    rcases hmem with rfl | rfl
    · have hshows := hclosed.shows_home (hgrows.isSettled hsettled)
      rw [hhome] at hshows
      exact hgrows.find?_join (h.closed.shows_home hsettled) hshows hisName (hold suffix hsuffix).2
    · exact hgrows.find?_join (Store.shows_of_place hlibrary hdirectory)
        (Store.shows_of_place (hgrows.place hlibrary) (hgrows.get?_eq_some hdirectory)) hisName
        (hold suffix hsuffix).1

theorem StandsApart.of_grows (h : c.StandsApart) {library : Files.Place}
    (hlibrary : c.files.place c.library = .ok library)
    (hgrows : c.files.Grows files new) (hclosed : files.IsClosed)
    (kept : List (String × Grammar)) :
    StandsApart { c with files := files, kept := kept } := by
  constructor
  · exact hclosed
  · intro project hproject
    exact hgrows.isSettled (h.settled project hproject)
  · intro project hproject q hq hway
    have hsame : q = library := by
      have hplace := hgrows.place hlibrary
      rw [show files.place c.library = .ok q from hq] at hplace
      exact Except.ok.inj hplace
    have hhome := hgrows.home_eq h.closed hclosed (h.settled project hproject)
    rw [hsame] at hway ⊢
    dsimp only at hway ⊢
    rw [hhome] at hway ⊢
    exact h.apart project hproject library hlibrary hway

/-- A place under a directory that is not above another one is not on the way there. -/
theorem not_under_isOnWayTo {q r : Files.Place} (h : q.IsOnWayTo r → q = r) :
    ¬ (q.under name).IsOnWayTo r := by
  rintro ⟨hbase, hprefix⟩
  have hq : q.IsOnWayTo r := ⟨hbase, (List.prefix_append _ _).trans hprefix⟩
  have hlength := hprefix.length_le
  rw [h hq] at hlength
  exact absurd hlength (by simp [Files.Place.under])

end Copying

/-- What holds of a catalog at all times: its directories stand apart, and what is kept under
stems of files is coherent. -/
structure IsSound (c : Catalog) : Prop where
  apart : c.StandsApart
  stems : ∀ e ∈ c.kept, IsStem e.1
  coherent : c.IsCoherent

variable {c : Catalog} {name : String}

theorem IsSound.of_kept_subset (h : c.IsSound) {kept : List (String × Grammar)}
    (hkept : ∀ e ∈ kept, e ∈ c.kept) : IsSound { c with kept := kept } := by
  constructor
  · exact ⟨h.apart.closed, h.apart.settled, h.apart.apart⟩
  · intro e he
    exact h.stems e (hkept e he)
  · apply h.coherent.of_sameFor
    intro e he
    exact ⟨hkept e he, h.stems e (hkept e he), rfl, fun _ _ _ _ => rfl⟩

theorem IsSound.grammar? (h : c.IsSound) (hname : IsStem name) :
    ((Catalog.grammar? name).on c).2.IsSound := by
  cases hkept : c.kept.find? fun e => e.1 == name with
  | some entry =>
      rw [grammar?_of_kept hkept]
      exact h
  | none =>
      cases hfind : c.findFile? name with
      | none =>
          rw [grammar?_of_missing hkept hfind]
          exact h
      | some p =>
          cases hload : loaded c.files p with
          | error e =>
              rw [grammar?_of_failed hkept hfind hload]
              exact h
          | ok g =>
              rw [grammar?_of_loaded hkept hfind hload]
              constructor
              · exact ⟨h.apart.closed, h.apart.settled, h.apart.apart⟩
              · intro e he
                rcases List.mem_append.mp he with hmem | hmem
                · exact h.stems e hmem
                · rw [List.mem_singleton.mp hmem]
                  exact hname
              · intro e he
                rcases List.mem_append.mp he with hmem | hmem
                · rcases h.coherent e hmem with ⟨p', hfind', hload'⟩
                  rw [load_answers_iff] at hload'
                  exact ⟨p', hfind', load_answers_iff.mpr hload'⟩
                · rw [List.mem_singleton.mp hmem]
                  exact ⟨p, hfind, load_answers_iff.mpr hload⟩

section Project

variable {project source : Path}

/-- The place of the library, and that new directories of the project are not right below it. -/
theorem StandsApart.library_of_source (h : c.StandsApart) (hname : IsStem name)
    (hproject : c.project = some project)
    (hsource : fileIn? c.files c.library name = some source) :
    ∃ library, c.files.place c.library = .ok library ∧ c.files.get? library = some .directory
      ∧ ∀ other, ¬ (library.under other).IsOnWayTo (c.files.home project)
        ∧ ¬ ((c.files.home project).under other).IsOnWayTo (c.files.home project) := by
  rcases fileIn?_eq_some hsource with ⟨suffix, hsuffix, rfl, hcontains⟩
  rcases Store.place_of_contains_join (hname.isName hsuffix) hcontains with
    ⟨library, hlibrary, hdirectory⟩
  refine ⟨library, hlibrary, hdirectory, ?_⟩
  intro other
  constructor
  · exact not_under_isOnWayTo (h.apart project hproject library hlibrary)
  · exact not_under_isOnWayTo fun _ => rfl

theorem IsSound.withProject (h : c.IsSound) (hname : IsStem name)
    (hproject : c.project = some project)
    (hsource : fileIn? c.files c.library name = some source) : (c.withProject project).IsSound := by
  rcases h.apart.library_of_source hname hproject hsource with
    ⟨library, hlibrary, hdirectory, hway⟩
  rcases Store.grows_provide h.apart.closed (h.apart.settled project hproject) with
    ⟨hclosed, hgrows⟩
  constructor
  · exact h.apart.of_grows hlibrary hgrows hclosed _
  · exact h.stems
  · apply h.coherent.of_sameFor
    intro e he
    refine ⟨he, h.stems e he, ?_⟩
    exact sameFor_of_grows h.apart hproject hlibrary hdirectory hgrows hclosed (h.stems e he)
      (fun suffix _ => hway (e.1 ++ suffix)) _

/-- A new file of a name in the project leaves a catalog sound if the name is forgotten. -/
theorem IsSound.copied (h : c.IsSound) (hname : IsStem name) (hproject : c.project = some project)
    (hsource : fileIn? c.files c.library name = some source) {files : Store} {content : List UInt8}
    (hnew : (c.withProject project).files.contains (project.join source.name) = false)
    (hsaves : c.files.Saves files (project.join source.name) content) :
    IsSound { c with files := files, kept := c.kept.filter fun e => e.1 != name } := by
  rcases h.apart.library_of_source hname hproject hsource with
    ⟨library, hlibrary, hdirectory, hway⟩
  rcases fileIn?_isName hname hsource with ⟨suffix, hsuffix, _, hsourceName, hfile⟩
  have hsettled := h.apart.settled project hproject
  rcases Store.grows_provide h.apart.closed hsettled with ⟨hclosed, hgrows⟩
  have hwritten := hsaves.written
  rw [Path.parent_join hfile] at hwritten
  rcases Store.write_eq_ok_iff.mp hwritten with ⟨q, hplace, _, rfl⟩
  have hnone := Store.get?_eq_none_of_place hplace hnew
  rcases (Store.place_join_iff hfile).mp hplace with ⟨target, htarget, htargetDirectory, rfl⟩
  rw [hsourceName] at hnone ⊢
  have hhome : target = c.files.home project := by
    rw [← hgrows.home_eq h.apart.closed hclosed hsettled, Store.home_eq_of_place htarget]
  have hclosed' := @Store.IsClosed.insert _ target hclosed (name ++ suffix) (.file content)
    hnone htargetDirectory
  have hgrows' : c.files.Grows
      ((c.files.provide project).1.insert (target.under (name ++ suffix)) (.file content))
      fun r => r.IsOnWayTo (c.files.home project) ∨ r = target.under (name ++ suffix) := by
    apply Store.Grows.trans
    · exact hgrows.mono fun r hr => Or.inl hr
    · exact (Store.grows_insert hnone).mono fun r hr => Or.inr hr
  constructor
  · exact h.apart.of_grows hlibrary hgrows' hclosed' _
  · intro e he
    exact h.stems e (List.mem_filter.mp he).1
  · apply h.coherent.of_sameFor
    intro e he
    rcases List.mem_filter.mp he with ⟨hmem, hne⟩
    refine ⟨hmem, h.stems e hmem, ?_⟩
    -- the new file has another name
    have hold : ∀ suffix' ∈ suffixes, ∀ r : Files.Place,
        r.under (e.1 ++ suffix') ≠ target.under (name ++ suffix) := by
      intro suffix' hsuffix' r heq
      have hsame := eq_of_append_suffix_eq hsuffix' hsuffix (Files.Place.under_inj heq).2
      simp [hsame] at hne
    apply sameFor_of_grows h.apart hproject hlibrary hdirectory hgrows' hclosed' (h.stems e hmem)
    intro suffix' hsuffix'
    rw [not_or, not_or]
    exact ⟨⟨(hway _).1, hold suffix' hsuffix' _⟩, ⟨(hway _).2, hold suffix' hsuffix' _⟩⟩

end Project

theorem IsSound.copyToProject (h : c.IsSound) (hname : IsStem name) :
    ((Catalog.copyToProject name).on c).2.IsSound := by
  have hcopying := copyToProject_copying c hname
  generalize (Catalog.copyToProject name).on c = result at hcopying
  cases hcopying with
  | noProject => exact h
  | missing => exact h
  | refused _ _ _ hproject hsource => exact h.withProject hname hproject hsource
  | there _ _ hproject hsource => exact h.withProject hname hproject hsource
  | unreadable _ _ _ hproject hsource => exact h.withProject hname hproject hsource
  | copied _ _ _ _ hproject hsource hnew _ hsaves =>
      exact h.copied hname hproject hsource hnew hsaves

/-!
## Runs
-/

/-- What can be asked of a catalog. -/
inductive Request where
  | get (name : String)
  | find (name : String)
  | list
  | copy (name : String)
  | forget
  deriving DecidableEq, Repr

namespace Request

def name? : Request → Option String
  | .get name | .find name | .copy name => some name
  | .list | .forget => none

def work : Request → Work Unit
  | .get name => discard (grammar? name)
  | .find name => discard do return (← MonadState.get).findFile? name
  | .list => discard Catalog.list
  | .copy name => discard (copyToProject name)
  | .forget => Catalog.forget

end Request

/-- The catalog after some requests one after another, whether they succeed or fail. -/
def after (c : Catalog) (requests : List Request) : Catalog :=
  requests.foldl (fun c request => (request.work.on c).2) c

theorem after_concat (c : Catalog) (requests : List Request) (request : Request) :
    c.after (requests ++ [request]) = (request.work.on (c.after requests)).2 := by
  rw [after, after, List.foldl_append]
  rfl

theorem on_discard {α : Type} (w : Work α) (c : Catalog) :
    ((discard w).on c).2 = (w.on c).2 := by
  have hmap : discard w = w >>= fun _ => pure () := rfl
  rw [hmap]
  rcases hw : w.on c with ⟨answer, c'⟩
  cases answer with
  | ok a => rw [Work.on_bind_of_ok hw]; rfl
  | error e => rw [Work.on_bind_of_error hw]

/-- Every request leaves a catalog sound. -/
theorem IsSound.request (h : c.IsSound) {request : Request}
    (hname : ∀ name ∈ request.name?, IsStem name) : (request.work.on c).2.IsSound := by
  cases request with
  | get name =>
      rw [Request.work, on_discard]
      exact h.grammar? (hname name rfl)
  | find name => exact h
  | list =>
      rw [Request.work, on_discard, show list.on c = (listed c, c) from list_answers]
      exact h
  | copy name =>
      rw [Request.work, on_discard]
      exact h.copyToProject (hname name rfl)
  | forget => exact h.of_kept_subset fun e he => absurd he List.not_mem_nil

theorem IsSound.after (h : c.IsSound) {requests : List Request}
    (hnames : ∀ request ∈ requests, ∀ name ∈ request.name?, IsStem name) :
    (c.after requests).IsSound := by
  induction requests generalizing c with
  | nil => exact h
  | cons request requests ih =>
      apply ih (h.request (hnames request List.mem_cons_self))
      intro other hother
      exact hnames other (List.mem_cons_of_mem _ hother)

/-- What is kept does not show: a coherent catalog answers like one that keeps nothing. -/
theorem IsCoherent.grammar?_eq (h : c.IsCoherent) (name : String) :
    ((grammar? name).on c).1 = ((grammar? name).on { c with kept := [] }).1 := by
  cases hkept : c.kept.find? fun e => e.1 == name with
  | some entry =>
      have hname : entry.1 = name := by simpa using List.find?_some hkept
      rcases h entry (List.mem_of_find?_eq_some hkept) with ⟨p, hfind, hload⟩
      rw [load_answers_iff] at hload
      rw [hname] at hfind
      rw [grammar?_of_kept hkept,
        @grammar?_of_loaded { c with kept := [] } name p entry.2 rfl hfind hload]
  | none =>
      cases hfind : c.findFile? name with
      | none =>
          rw [grammar?_of_missing hkept hfind,
            @grammar?_of_missing { c with kept := [] } name rfl hfind]
      | some p =>
          cases hload : loaded c.files p with
          | error e =>
              rw [grammar?_of_failed hkept hfind hload,
                @grammar?_of_failed { c with kept := [] } name p e rfl hfind hload]
          | ok g =>
              rw [grammar?_of_loaded hkept hfind hload,
                @grammar?_of_loaded { c with kept := [] } name p g rfl hfind hload]

/-- Whatever is asked of a catalog that keeps nothing at first, what it keeps under a name is at
all times what is loaded from the file of the name, so it answers for any name like a new catalog
over the same files. -/
theorem kept_grammars_are_current (h : c.StandsApart) (hkept : c.kept = [])
    (requests : List Request)
    (hnames : ∀ request ∈ requests, ∀ name ∈ request.name?, IsStem name) :
    (∀ e ∈ (c.after requests).kept, ∃ p, (c.after requests).findFile? e.1 = some p
        ∧ ((load p).on (c.after requests)).1 = .ok e.2)
      ∧ ∀ name, ((grammar? name).on (c.after requests)).1 =
        ((grammar? name).on { c.after requests with kept := [] }).1 := by
  have hsound : c.IsSound := by
    constructor
    · exact h
    · intro e he
      rw [hkept] at he
      cases he
    · intro e he
      rw [hkept] at he
      cases he
  have hafter := hsound.after hnames
  constructor
  · intro e he
    rcases hafter.coherent e he with ⟨p, hfind, hload⟩
    exact ⟨p, hfind, congrArg Prod.fst hload⟩
  · exact hafter.coherent.grammar?_eq

/-!
## A catalog that keeps grammars
-/

def plainest : Grammar where
  header := ⟨none, none, "source.x", none, none, none, "", "", "u"⟩
  patterns := none
  repository := none

theorem plainest_wellFormed : plainest.WellFormed := by decide

def plainestText : String :=
  "\x7b\n  \"scopeName\": \"source.x\",\n  \"firstLineMatch\": \"\",\n  "
    ++ "\"injectionSelector\": \"\",\n  \"uuid\": \"u\"\n\x7d\n"

theorem textOf_plainestText : textOf (Text.encodeUtf8 plainestText) = .ok plainestText :=
  textOf_encodeUtf8 (by decide +kernel)

theorem decoded_plainestText : decoded .json (Text.encodeUtf8 plainestText) = .ok plainest := by
  have hprint : plainestText = Format.json.print plainest.plainDocument := by rfl
  rw [decoded, textOf_plainestText]
  dsimp only [Except.bind]
  rw [hprint, plainest_wellFormed.ofText_print]
  rfl

/-- A library with files of two names, further files, and grammars that are kept. -/
def stocked (files : List (Files.Place × Entry)) (kept : List (String × Grammar)) : Catalog where
  files := ⟨[(⟨.here, ["library"]⟩, .directory),
    (⟨.here, ["library", "a.json"]⟩, .file (Text.encodeUtf8 plainestText)),
    (⟨.here, ["library", "b.json"]⟩, .file (Text.encodeUtf8 plainestText))] ++ files⟩
  library := ⟨.here, ["library"]⟩
  project := some ⟨.here, ["project"]⟩
  kept := kept

def fresh : Catalog :=
  stocked [] []

def copiedFiles : List (Files.Place × Entry) :=
  [(⟨.here, ["project"]⟩, .directory),
    (⟨.here, ["project", "a.json"]⟩, .file (Text.encodeUtf8 plainestText))]

theorem fresh_standsApart : fresh.StandsApart := by
  apply standsApart_of_plain
  · apply Store.isClosed_of_entries
    decide
  · decide
  · decide
  · decide

section Stocked

variable {files : List (Files.Place × Entry)} {kept : List (String × Grammar)}

theorem stocked_get {name : String} {p : Path} (hkept : kept.find? (fun e => e.1 == name) = none)
    (hfind : (stocked files kept).findFile? name = some p) (hformat : p.format = .json)
    (hfile : (stocked files kept).files.find? p = some (.file (Text.encodeUtf8 plainestText))) :
    ((Request.get name).work.on (stocked files kept)).2 =
      stocked files (kept ++ [(name, plainest)]) := by
  have hload : loaded (stocked files kept).files p = .ok plainest := by
    rw [loaded_eq_of_find? hfile, hformat]
    exact decoded_plainestText
  rw [Request.work, on_discard, grammar?_of_loaded hkept hfind hload]
  rfl

theorem stocked_copy :
    ((Request.copy "a").work.on (stocked [] kept)).2 =
      stocked copiedFiles (kept.filter fun e => e.1 != "a") := by
  have hsource : fileIn? (stocked [] kept).files (stocked [] kept).library "a" =
      some ⟨.here, ["library", "a.json"]⟩ := rfl
  have hproject : (stocked [] kept).project = some ⟨.here, ["project"]⟩ := rfl
  have hmade : (provide ⟨.here, ["project"]⟩).on (stocked [] kept) =
      (.ok (), stocked [(⟨.here, ["project"]⟩, .directory)] kept) := rfl
  have hnew : (stocked [(⟨.here, ["project"]⟩, .directory)] kept).files.contains
      ((⟨.here, ["project"]⟩ : Path).join (⟨.here, ["library", "a.json"]⟩ : Path).name) =
        false := rfl
  have hread : (readText ⟨.here, ["library", "a.json"]⟩).on
      (stocked [(⟨.here, ["project"]⟩, .directory)] kept) =
        (.ok plainestText, stocked [(⟨.here, ["project"]⟩, .directory)] kept) := by
    have hfile : textIn (stocked [(⟨.here, ["project"]⟩, .directory)] kept).files
        ⟨.here, ["library", "a.json"]⟩ = textOf (Text.encodeUtf8 plainestText) :=
      textIn_of_find? rfl
    rw [show (readText _).on _ = _ from readText_answers _, hfile, textOf_plainestText]
  have hwrite : (change fun files => files.write ⟨.here, ["project", "a.json"]⟩
      (Text.encodeUtf8 plainestText)).on (stocked [(⟨.here, ["project"]⟩, .directory)] kept) =
        (.ok (), stocked copiedFiles kept) := rfl
  rw [Request.work, on_discard, copyToProject, Work.on_bind_of_ok Work.on_get]
  simp only [hproject, hsource]
  rw [Work.on_bind_of_ok hmade, Work.on_bind_of_ok Work.on_get, hnew, if_neg (by decide),
    Work.on_bind_of_ok hread]
  exact congrArg Prod.snd (Work.on_bind_of_ok hwrite)

end Stocked

/-- Requests for two names, of which the first one gets a file of the project in between. -/
def overlaying : List Request :=
  [.get "a", .get "b", .copy "a", .get "a"]

theorem fresh_after_asking :
    fresh.after [.get "a", .get "b"] = stocked [] [("a", plainest), ("b", plainest)] := by
  rw [after, List.foldl_cons, List.foldl_cons, List.foldl_nil, fresh,
    stocked_get (p := ⟨.here, ["library", "a.json"]⟩) rfl rfl rfl rfl,
    stocked_get (p := ⟨.here, ["library", "b.json"]⟩) rfl rfl rfl rfl]
  simp only [List.nil_append, List.singleton_append]

theorem fresh_after_copying :
    fresh.after [.get "a", .get "b", .copy "a"] = stocked copiedFiles [("b", plainest)] := by
  have hkept : ([("a", plainest), ("b", plainest)] : List (String × Grammar)).filter
      (fun e => e.1 != "a") = [("b", plainest)] := rfl
  rw [show [Request.get "a", .get "b", .copy "a"] = [.get "a", .get "b"] ++ [.copy "a"] from rfl,
    after_concat, fresh_after_asking, stocked_copy, hkept]

theorem fresh_after_overlaying :
    fresh.after overlaying = stocked copiedFiles [("b", plainest), ("a", plainest)] := by
  rw [show overlaying = [.get "a", .get "b", .copy "a"] ++ [.get "a"] from rfl, after_concat,
    fresh_after_copying, stocked_get (p := ⟨.here, ["project", "a.json"]⟩) rfl rfl rfl rfl,
    List.singleton_append]

/-- Two grammars are kept, one of them is forgotten when the project gets its file, and it is
loaded from there and kept anew: all that is kept is current. -/
theorem fresh_stays_current :
    fresh.StandsApart ∧ fresh.kept = []
      ∧ (fresh.after [.get "a", .get "b"]).kept = [("a", plainest), ("b", plainest)]
      ∧ (fresh.after [.get "a", .get "b", .copy "a"]).kept = [("b", plainest)]
      ∧ (fresh.after overlaying).kept = [("b", plainest), ("a", plainest)]
      ∧ (fresh.after overlaying).findFile? "a" = some ⟨.here, ["project", "a.json"]⟩
      ∧ (∀ e ∈ (fresh.after overlaying).kept, ∃ p,
          (fresh.after overlaying).findFile? e.1 = some p
            ∧ ((load p).on (fresh.after overlaying)).1 = .ok e.2)
      ∧ ∀ name, ((grammar? name).on (fresh.after overlaying)).1 =
          ((grammar? name).on { fresh.after overlaying with kept := [] }).1 := by
  have hfind : (fresh.after overlaying).findFile? "a" = some ⟨.here, ["project", "a.json"]⟩ := by
    rw [fresh_after_overlaying]
    rfl
  have hcurrent := kept_grammars_are_current fresh_standsApart rfl overlaying (by decide)
  refine ⟨fresh_standsApart, rfl, ?_, ?_, ?_, hfind, hcurrent⟩
  · rw [fresh_after_asking, stocked]
  · rw [fresh_after_copying, stocked]
  · rw [fresh_after_overlaying, stocked]

end Catalog
end TextMate
