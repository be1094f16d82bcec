import TextMate.Proofs.Catalog.Find
import TextMate.Proofs.Files.Saving
import TextMate.Proofs.Text.Utf8

/-!
# Copying grammars

A grammar is copied as the file that the library has under its name.  Only this file
is looked for in the project, so a file of the name with another suffix does not
stop the copy.  The directories of the project are made before anything is read.
-/

namespace TextMate
namespace Catalog

open Files

/-!
## The text of a file
-/

section Text

variable {files : Store} {p : Path} {bytes : List UInt8} {s : String} {e : Failure}

theorem textIn_of_find? (h : files.find? p = some (.file bytes)) :
    textIn files p = textOf bytes := by
  rw [textIn, Store.read_of_find? h]
  rfl

theorem textIn_of_directory (h : files.find? p = some .directory) :
    textIn files p = .error (.file ⟨.isDirectory, p⟩) := by
  rw [textIn, Store.read_of_directory h]
  rfl

theorem find?_of_textIn_eq_ok (hcontains : files.contains p = true) (h : textIn files p = .ok s) :
    ∃ bytes, files.find? p = some (.file bytes) ∧ textOf bytes = .ok s := by
  rcases Store.contains_iff.mp hcontains with ⟨entry, hfind⟩
  cases entry with
  | directory =>
      rw [textIn_of_directory hfind] at h
      cases h
  | file bytes =>
      rw [textIn_of_find? hfind] at h
      exact ⟨bytes, hfind, h⟩

theorem textOf_eq_error (h : textOf bytes = .error e) : ∃ fault, e = .encoding fault := by
  unfold textOf at h
  cases hdecode : Text.decodeUtf8 bytes with
  | ok s =>
      rw [hdecode] at h
      cases h
  | error fault =>
      rw [hdecode] at h
      cases h
      exact ⟨fault, rfl⟩

theorem textIn_eq_error (h : textIn files p = .error e) :
    (∃ error, e = .file error) ∨ ∃ fault, e = .encoding fault := by
  unfold textIn at h
  cases hread : files.read p with
  | error error =>
      rw [hread] at h
      cases h
      exact Or.inl ⟨error, rfl⟩
  | ok bytes =>
      rw [hread] at h
      exact Or.inr (textOf_eq_error h)

theorem decodeUtf8_of_textOf (h : textOf bytes = .ok s) :
    ∃ decoded, Text.decodeUtf8 bytes = .ok decoded
      ∧ s = String.ofList (Text.normalizeLineEnds decoded.toList) := by
  unfold textOf at h
  cases hdecode : Text.decodeUtf8 bytes with
  | ok decoded =>
      rw [hdecode] at h
      cases h
      exact ⟨decoded, rfl, rfl⟩
  | error fault =>
      rw [hdecode] at h
      cases h

theorem return_not_mem_of_textOf (h : textOf bytes = .ok s) : '\r' ∉ s.toList := by
  rcases decodeUtf8_of_textOf h with ⟨decoded, _, rfl⟩
  rw [String.toList_ofList]
  exact Text.return_not_mem_normalizeLineEnds _

/-- A text with line feeds as its line ends is read as it was written. -/
theorem textOf_encodeUtf8 (h : '\r' ∉ s.toList) : textOf (Text.encodeUtf8 s) = .ok s := by
  rw [textOf, Text.decodeUtf8_encodeUtf8]
  dsimp only [Except.map, Except.mapError]
  rw [Text.normalizeLineEnds_eq_self h, String.ofList_toList]

theorem suffix_eq_of_name_eq {p p' : Path} (h : p.name = p'.name) : p.suffix = p'.suffix := by
  rw [Path.suffix, Path.suffix, h]

theorem format_eq_of_name_eq {p p' : Path} (h : p.name = p'.name) : p.format = p'.format := by
  rw [Path.format, Path.format, suffix_eq_of_name_eq h]

theorem loaded_eq_of_textIn {files' : Store} {p' : Path} (hname : p'.name = p.name)
    (htext : textIn files' p' = textIn files p) : loaded files' p' = loaded files p := by
  rw [loaded_eq_bind, loaded_eq_bind, htext, format_eq_of_name_eq hname]

end Text

theorem load_on (c : Catalog) (p : Path) : ((load p).on c).1 = loaded c.files p :=
  congrArg Prod.fst (load_answers p)

theorem readText_on (c : Catalog) (p : Path) : ((readText p).on c).1 = textIn c.files p :=
  congrArg Prod.fst (readText_answers p)

/-!
## What comes of copying
-/

def withProject (c : Catalog) (project : Path) : Catalog :=
  { c with files := (c.files.provide project).1 }

inductive Copying (c : Catalog) (name : String) : Except Failure (Option Path) × Catalog → Prop
  | noProject (hproject : c.project = none) : Copying c name (.error .noProject, c)
  | missing (project : Path) (hproject : c.project = some project)
      (hsource : fileIn? c.files c.library name = none) : Copying c name (.ok none, c)
  | refused (project source : Path) (error : FileError) (hproject : c.project = some project)
      (hsource : fileIn? c.files c.library name = some source)
      (hrefused : (c.files.provide project).2 = some error) :
      Copying c name (.error (.file error), c.withProject project)
  | there (project source : Path) (hproject : c.project = some project)
      (hsource : fileIn? c.files c.library name = some source)
      (hmade : (c.files.provide project).2 = none)
      (hthere : (c.withProject project).files.contains (project.join source.name) = true) :
      Copying c name (.error (.inProject name), c.withProject project)
  | unreadable (project source : Path) (e : Failure) (hproject : c.project = some project)
      (hsource : fileIn? c.files c.library name = some source)
      (hmade : (c.files.provide project).2 = none)
      (hnew : (c.withProject project).files.contains (project.join source.name) = false)
      (htext : textIn c.files source = .error e) :
      Copying c name (.error e, c.withProject project)
  | copied (project source : Path) (s : String) (files : Store)
      (hproject : c.project = some project)
      (hsource : fileIn? c.files c.library name = some source)
      (hnew : (c.withProject project).files.contains (project.join source.name) = false)
      (htext : textIn c.files source = .ok s)
      (hsaves : c.files.Saves files (project.join source.name) (Text.encodeUtf8 s)) :
      Copying c name (.ok (some (project.join source.name)),
        { c with files := files, kept := c.kept.filter fun e => e.1 != name })

variable {c c' : Catalog} {name : String} {project source target : Path}

theorem fileIn?_isName {files : Store} {directory : Path} (hname : IsStem name)
    (h : fileIn? files directory name = some source) :
    ∃ suffix ∈ suffixes, source = directory.join (name ++ suffix) ∧ source.name = name ++ suffix
      ∧ IsName source.name := by
  rcases fileIn?_eq_some h with ⟨suffix, hsuffix, rfl, _⟩
  have hisName := hname.isName hsuffix
  exact ⟨suffix, hsuffix, rfl, hisName.name_join directory, by rwa [hisName.name_join]⟩

theorem saves_of_made {files : Store} {other : String} (hname : IsName other)
    (hmade : (files.provide project).2 = none)
    (hnew : (files.provide project).1.contains (project.join other) = false)
    (content : List UInt8) : ∃ files', files.Saves files' (project.join other) content := by
  have hparent := Path.parent_join hname project
  rcases Store.find?_eq_some_iff.mp (Store.find?_of_provide hmade) with ⟨q, hplace, hdirectory⟩
  have htarget : (files.provide project).1.place (project.join other) = .ok (q.under other) :=
    (Store.place_join_iff hname).mpr ⟨q, hplace, hdirectory, rfl⟩
  rcases Store.write_of_contains_eq_false hnew content with ⟨e, hwrite⟩ | ⟨r, _, _, hwrite⟩
  · have hnone := Store.get?_eq_none_of_place htarget hnew
    have hok := (@Store.write_eq_ok_iff _ _ _ content).mpr
      ⟨q.under other, htarget, by simp [hnone], rfl⟩
    rw [hok] at hwrite
    cases hwrite
  · exact ⟨_, by rw [hparent]; exact hmade, by rw [hparent]; exact hwrite⟩

theorem copyToProject_copying (c : Catalog) (hname : IsStem name) :
    Copying c name ((copyToProject name).on c) := by
  generalize hresult : (copyToProject name).on c = result
  unfold copyToProject at hresult
  rw [Work.on_bind_of_ok Work.on_get] at hresult
  rcases Option.eq_none_or_eq_some c.project with hproject | ⟨project, hproject⟩
  · simp only [hproject] at hresult
    rw [← hresult]
    exact Copying.noProject hproject
  rcases Option.eq_none_or_eq_some (fileIn? c.files c.library name) with hsource | ⟨source, hsource⟩
  · simp only [hproject, hsource] at hresult
    rw [← hresult]
    exact Copying.missing project hproject hsource
  simp only [hproject, hsource] at hresult
  rcases Option.eq_none_or_eq_some (c.files.provide project).2 with hmade | ⟨error, hrefused⟩
  · have hprovide : (provide project).on c = (.ok (), c.withProject project) :=
      provide_of_none hmade
    rw [Work.on_bind_of_ok hprovide, Work.on_bind_of_ok Work.on_get] at hresult
    split at hresult
    · rename_i hthere
      rw [← hresult]
      exact Copying.there project source hproject hsource hmade hthere
    · rename_i hnew
      rw [Bool.not_eq_true] at hnew
      have htextIn : textIn (c.withProject project).files source = textIn c.files source := by
        rcases fileIn?_eq_some hsource with ⟨_, _, _, hcontains⟩
        rw [textIn, textIn,
          (show c.files.Grows (c.withProject project).files _ from
            (Store.provides_provide c.files project).grows).read_eq hcontains]
      have hanswer : (readText source).on (c.withProject project) =
          (textIn (c.withProject project).files source, c.withProject project) :=
        readText_answers source
      rw [htextIn] at hanswer
      cases htext : textIn c.files source with
      | error e =>
          rw [htext] at hanswer
          rw [Work.on_bind_of_error hanswer] at hresult
          rw [← hresult]
          exact Copying.unreadable project source e hproject hsource hmade hnew htext
      | ok s =>
          rw [htext] at hanswer
          rcases fileIn?_isName hname hsource with ⟨_, _, _, _, hisName⟩
          rcases saves_of_made hisName hmade hnew (Text.encodeUtf8 s) with ⟨files, hsaves⟩
          have hwrite := hsaves.written
          rw [Path.parent_join hisName] at hwrite
          rw [Work.on_bind_of_ok hanswer, Work.on_bind_of_ok (change_of_ok hwrite)] at hresult
          rw [← hresult]
          exact Copying.copied project source s files hproject hsource hnew htext hsaves
  · rw [Work.on_bind_of_error (provide_of_some hrefused)] at hresult
    rw [← hresult]
    exact Copying.refused project source error hproject hsource hrefused

/-!
## A project that has a file of the name
-/

/-- Where one more of some is accepted, the first of the two that come first is found. -/
theorem find?_of_one_more {α : Type} [BEq α] [LawfulBEq α] {as : List α}
    {accepts accepts' : α → Bool} {a old : α} (hold : as.find? accepts = some old) (ha : a ∈ as)
    (hmore : ∀ b ∈ as, accepts' b = (b == a || accepts b)) :
    as.find? accepts' = some (if as.idxOf a < as.idxOf old then a else old) := by
  induction as with
  | nil => cases hold
  | cons b as ih =>
      have hb := hmore b List.mem_cons_self
      cases haccepts : accepts b with
      | true =>
          rw [List.find?_cons_of_pos haccepts] at hold
          cases hold
          rw [haccepts, Bool.or_true] at hb
          rw [List.find?_cons_of_pos hb, List.idxOf_cons_self]
          rfl
      | false =>
          rw [List.find?_cons_of_neg (by simp [haccepts])] at hold
          have hne : b ≠ old := by
            intro heq
            have haccepted := List.find?_some hold
            rw [← heq, haccepts] at haccepted
            cases haccepted
          by_cases heq : b = a
          · rw [heq, beq_self_eq_true, Bool.true_or, ← heq] at hb
            rw [List.find?_cons_of_pos hb, List.idxOf_cons_ne as hne, ← heq, List.idxOf_cons_self,
              if_pos (Nat.succ_pos _)]
          · rw [haccepts, Bool.or_false, beq_eq_false_iff_ne.mpr heq] at hb
            rw [List.find?_cons_of_neg (by simp [hb]),
              ih hold ((List.mem_cons.mp ha).resolve_left (Ne.symm heq))
                fun b' hb' => hmore b' (List.mem_cons_of_mem b hb'),
              List.idxOf_cons_ne as heq, List.idxOf_cons_ne as hne]
            simp only [Nat.succ_lt_succ_iff]

theorem fileIn?_eq_map (files : Store) (directory : Path) (name : String) :
    fileIn? files directory name =
      (suffixes.find? fun suffix => files.contains (directory.join (name ++ suffix))).map
        fun suffix => directory.join (name ++ suffix) := by
  rw [fileIn?, List.find?_map]
  rfl

theorem fileIn?_of_saves {files files' : Store} {directory : Path} {suffix suffix' : String}
    {content : List UInt8} (hname : IsStem name) (hsuffix : suffix ∈ suffixes)
    (hdirectory : files.find? directory = some .directory)
    (hfirst : (suffixes.find? fun suffix => files.contains (directory.join (name ++ suffix))) =
      some suffix')
    (hsaves : files.Saves files' (directory.join (name ++ suffix)) content) :
    fileIn? files' directory name = some
      (if suffixes.idxOf suffix < suffixes.idxOf suffix' then directory.join (name ++ suffix)
        else directory.join (name ++ suffix')) := by
  have hmore : ∀ other ∈ suffixes, files'.contains (directory.join (name ++ other)) =
      (other == suffix || files.contains (directory.join (name ++ other))) := by
    intro other hother
    rw [Store.contains,
      hsaves.find?_join hdirectory (hname.isName hsuffix) (hname.isName hother)]
    by_cases heq : other = suffix
    · simp [heq]
    · simp [heq, Store.contains]
  rw [fileIn?_eq_map, find?_of_one_more hfirst hsuffix hmore]
  split
  · rfl
  · rfl

theorem findFile?_of_project {old : Path} (hname : IsStem name)
    (hproject : c.project = some project)
    (hold : fileIn? c.files project name = some old) : c.findFile? name = some old := by
  rw [findFile?_eq hname, directories, hproject, Option.toList_some, List.singleton_append,
    List.findSome?_cons, hold]

/-- Copying leaves the file that the project has under a name: it answers nothing where the library
has none, fails for a value that is wrong otherwise, and the name leads to the same file and the
same grammar as before. -/
structure LeavesFile (c : Catalog) (name : String) : Prop where
  answer : (fileIn? c.files c.library name = none ∧ ((copyToProject name).on c).1 = .ok none) ∨
    (∃ source, fileIn? c.files c.library name = some source) ∧
      (((copyToProject name).on c).1 = .error (.inProject name) ∨
        ∃ fault, ((copyToProject name).on c).1 = .error (.encoding fault))
  found : ((copyToProject name).on c).2.findFile? name = c.findFile? name
  loaded : ∀ p, c.findFile? name = some p →
    ((load p).on ((copyToProject name).on c).2).1 = ((load p).on c).1

theorem leavesFile_of_error {e : Failure} (hsource : fileIn? c.files c.library name = some source)
    (hon : (copyToProject name).on c = (.error e, c))
    (he : e = .inProject name ∨ ∃ fault, e = .encoding fault) : LeavesFile c name := by
  constructor
  · rw [hon]
    apply Or.inr
    constructor
    · exact ⟨source, hsource⟩
    · rcases he with rfl | ⟨fault, rfl⟩
      · exact Or.inl rfl
      · exact Or.inr ⟨fault, rfl⟩
  · rw [hon]
  · intro p _
    rw [hon]

theorem copyToProject_of_missing (hproject : c.project = some project)
    (hsource : fileIn? c.files c.library name = none) :
    (copyToProject name).on c = (.ok none, c) := by
  unfold copyToProject
  rw [Work.on_bind_of_ok Work.on_get]
  simp only [hproject, hsource]
  rfl

section Project

variable {old : Path} (hname : IsStem name) (hproject : c.project = some project)
  (hold : fileIn? c.files project name = some old)

include hname hold in
theorem find?_project : c.files.find? project = some .directory := by
  rcases fileIn?_eq_some hold with ⟨suffix, hsuffix, rfl, hcontains⟩
  rcases Store.place_of_contains_join (hname.isName hsuffix) hcontains with ⟨q, hplace, hget⟩
  exact Store.find?_eq_some_iff.mpr ⟨q, hplace, hget⟩

include hname hproject hold

/-- Copying into a project that is there makes no directories. -/
theorem copyToProject_cases_of_project (hsource : fileIn? c.files c.library name = some source) :
    (c.files.contains (project.join source.name) = true
        ∧ (copyToProject name).on c = (.error (.inProject name), c)) ∨
      (c.files.contains (project.join source.name) = false ∧
        ((∃ e, textIn c.files source = .error e ∧ (copyToProject name).on c = (.error e, c)) ∨
          ∃ s files, textIn c.files source = .ok s
            ∧ c.files.Saves files (project.join source.name) (Text.encodeUtf8 s)
            ∧ (copyToProject name).on c = (.ok (some (project.join source.name)),
              { c with files := files, kept := c.kept.filter fun e => e.1 != name }))) := by
  have hmade := Store.provide_of_find? (find?_project hname hold)
  have hsame : c.withProject project = c := by
    rw [withProject, hmade.1]
  have hcopying := copyToProject_copying c hname
  generalize (copyToProject name).on c = result at hcopying
  cases hcopying with
  | noProject hproject' =>
      rw [hproject] at hproject'
      cases hproject'
  | missing _ _ hsource' =>
      rw [hsource] at hsource'
      cases hsource'
  | refused _ _ error hproject' _ hrefused =>
      rw [hproject] at hproject'
      cases hproject'
      rw [hmade.2 rfl] at hrefused
      cases hrefused
  | there _ _ hproject' hsource' _ hthere =>
      rw [hproject] at hproject'
      rw [hsource] at hsource'
      cases hproject'
      cases hsource'
      rw [hsame] at hthere ⊢
      exact Or.inl ⟨hthere, rfl⟩
  | unreadable _ _ e hproject' hsource' _ hnew htext =>
      rw [hproject] at hproject'
      rw [hsource] at hsource'
      cases hproject'
      cases hsource'
      rw [hsame] at hnew ⊢
      exact Or.inr ⟨hnew, Or.inl ⟨e, htext, rfl⟩⟩
  | copied _ _ s files hproject' hsource' hnew htext hsaves =>
      rw [hproject] at hproject'
      rw [hsource] at hsource'
      cases hproject'
      cases hsource'
      rw [hsame] at hnew
      exact Or.inr ⟨hnew, Or.inr ⟨s, files, htext, hsaves, rfl⟩⟩

/-- Copying leaves the file of the project exactly if its target is taken or the source is no
text. -/
theorem leavesFile_iff :
    LeavesFile c name ↔ ∀ source, fileIn? c.files c.library name = some source →
      c.files.contains (project.join source.name) = true ∨
        ∃ fault, ((readText source).on c).1 = .error (.encoding fault) := by
  simp only [readText_on]
  constructor
  · intro hleaves source hsource
    rcases copyToProject_cases_of_project hname hproject hold hsource with
      ⟨hthere, _⟩ | ⟨_, ⟨e, htext, hon⟩ | ⟨s, files, _, _, hon⟩⟩
    · exact Or.inl hthere
    · apply Or.inr
      have hanswer := hleaves.answer
      rw [hon, hsource] at hanswer
      rcases hanswer with ⟨hnone, _⟩ | ⟨_, htaken | ⟨fault, hfault⟩⟩
      · cases hnone
      · cases htaken
        rcases textIn_eq_error htext with ⟨_, heq⟩ | ⟨_, heq⟩
        · cases heq
        · cases heq
      · cases hfault
        exact ⟨fault, htext⟩
    · have hanswer := hleaves.answer
      rw [hon, hsource] at hanswer
      rcases hanswer with ⟨hnone, _⟩ | ⟨_, htaken | ⟨fault, hfault⟩⟩
      · cases hnone
      · cases htaken
      · cases hfault
  · intro hstops
    cases hsource : fileIn? c.files c.library name with
    | none =>
        have hon := copyToProject_of_missing hproject hsource
        constructor
        · rw [hon]
          exact Or.inl ⟨hsource, rfl⟩
        · rw [hon]
        · intro p _
          rw [hon]
    | some source =>
        rcases copyToProject_cases_of_project hname hproject hold hsource with
          ⟨_, hon⟩ | ⟨hnew, hcases⟩
        · exact leavesFile_of_error hsource hon (Or.inl rfl)
        · rcases hstops source hsource with hthere | ⟨fault, hfault⟩
          · rw [hnew] at hthere
            cases hthere
          · rcases hcases with ⟨e, htext, hon⟩ | ⟨s, _, htext, _⟩
            · rw [hfault] at htext
              cases htext
              exact leavesFile_of_error hsource hon (Or.inr ⟨fault, rfl⟩)
            · rw [hfault] at htext
              cases htext

/-- A file that is copied beside the file of the project holds the grammar of the library, and the
name leads to it exactly if its suffix comes first. -/
theorem found_after_copying {c' : Catalog}
    (hcopied : (copyToProject name).on c = (.ok (some target), c')) :
    ∃ suffix ∈ suffixes, ∃ suffix' ∈ suffixes,
      fileIn? c.files c.library name = some (c.library.join (name ++ suffix))
        ∧ target = project.join (name ++ suffix) ∧ old = project.join (name ++ suffix')
        ∧ c'.findFile? name =
          some (if suffixes.idxOf suffix < suffixes.idxOf suffix' then target else old)
        ∧ ((load target).on c').1 = ((load (c.library.join (name ++ suffix))).on c).1
        ∧ ((load old).on c').1 = ((load old).on c).1 := by
  cases hsource : fileIn? c.files c.library name with
  | none =>
      rw [copyToProject_of_missing hproject hsource] at hcopied
      cases hcopied
  | some source =>
      rcases copyToProject_cases_of_project hname hproject hold hsource with
        ⟨_, hon⟩ | ⟨hnew, ⟨e, _, hon⟩ | ⟨s, files, htext, hsaves, hon⟩⟩
      · rw [hon] at hcopied
        cases hcopied
      · rw [hon] at hcopied
        cases hcopied
      · rw [hon] at hcopied
        cases hcopied
        rcases fileIn?_isName hname hsource with ⟨suffix, hsuffix, rfl, hsourceName, hisName⟩
        rw [hsourceName] at hnew hsaves hisName ⊢
        have hdirectory := find?_project hname hold
        have hgrows : c.files.Grows files _ := hsaves.grows (by
          rw [Path.parent_join hisName, (Store.provide_of_find? hdirectory).1]
          exact hnew)
        rw [fileIn?_eq_map, Option.map_eq_some_iff] at hold
        rcases hold with ⟨suffix', hfirst, rfl⟩
        have hthere : c.files.contains (project.join (name ++ suffix')) = true := by
          simpa using List.find?_some hfirst
        have hfound := fileIn?_of_saves hname hsuffix hdirectory hfirst hsaves
        exists suffix, hsuffix, suffix', List.mem_of_find?_eq_some hfirst
        refine ⟨rfl, rfl, rfl, ?_, ?_, ?_⟩
        · exact findFile?_of_project hname hproject hfound
        · rw [load_on, load_on]
          apply loaded_eq_of_textIn
          · rw [hsourceName, hisName.name_join]
          · rcases fileIn?_eq_some hsource with ⟨_, _, _, hcontains⟩
            rcases find?_of_textIn_eq_ok hcontains htext with ⟨bytes, _, hbytes⟩
            rw [htext, textIn_of_find? hsaves.find?]
            exact textOf_encodeUtf8 (return_not_mem_of_textOf hbytes)
        · rw [load_on, load_on]
          dsimp only
          rw [loaded, loaded, hgrows.read_eq hthere]

/-- Copying leaves the file that a project has under a name exactly if its target is taken or the
file of the library is no text.  Otherwise a copy stands beside the file, and the name leads to it
if its suffix comes first. -/
theorem copying_leaves_project_file_iff :
    (LeavesFile c name ↔ ∀ source, fileIn? c.files c.library name = some source →
        c.files.contains (project.join source.name) = true ∨
          ∃ fault, ((readText source).on c).1 = .error (.encoding fault))
      ∧ ∀ target c', (copyToProject name).on c = (.ok (some target), c') →
        ∃ suffix ∈ suffixes, ∃ suffix' ∈ suffixes,
          fileIn? c.files c.library name = some (c.library.join (name ++ suffix))
            ∧ target = project.join (name ++ suffix) ∧ old = project.join (name ++ suffix')
            ∧ c'.findFile? name =
              some (if suffixes.idxOf suffix < suffixes.idxOf suffix' then target else old)
            ∧ ((load target).on c').1 = ((load (c.library.join (name ++ suffix))).on c).1
            ∧ ((load old).on c').1 = ((load old).on c).1 := by
  constructor
  · exact leavesFile_iff hname hproject hold
  · intro target c' hcopied
    exact found_after_copying hname hproject hold hcopied

end Project

def twoSuffixes : Catalog where
  files := ⟨[(⟨.here, ["library"]⟩, .directory), (⟨.here, ["library", "a.yaml"]⟩, .file []),
    (⟨.here, ["project"]⟩, .directory), (⟨.here, ["project", "a.json"]⟩, .file [])]⟩
  library := ⟨.here, ["library"]⟩
  project := some ⟨.here, ["project"]⟩
  kept := []

/-- There copying does not leave the file of the project. -/
theorem twoSuffixes_not_leavesFile :
    IsStem "a" ∧ twoSuffixes.project = some ⟨.here, ["project"]⟩
      ∧ fileIn? twoSuffixes.files ⟨.here, ["project"]⟩ "a" =
        some ⟨.here, ["project", "a.json"]⟩
      ∧ ¬ LeavesFile twoSuffixes "a" := by
  have hname : IsStem "a" := by decide
  have hold : fileIn? twoSuffixes.files ⟨.here, ["project"]⟩ "a" =
      some ⟨.here, ["project", "a.json"]⟩ := by decide +kernel
  refine ⟨hname, rfl, hold, ?_⟩
  intro hleaves
  have hsource : fileIn? twoSuffixes.files twoSuffixes.library "a" =
      some ⟨.here, ["library", "a.yaml"]⟩ := by decide +kernel
  rcases (copying_leaves_project_file_iff hname rfl hold).1.mp hleaves _ hsource with
    hthere | ⟨fault, hfault⟩
  · exact absurd hthere (by decide +kernel)
  · cases hfault

/-!
## All or nothing
-/

/-- A file of the library was copied: its text is in a new file of the project, nothing that was
there is changed, and what else is new are directories of the project. -/
structure Copied (c c' : Catalog) (name : String) (project source target : Path) : Prop where
  configured : c.project = some project
  found : fileIn? c.files c.library name = some source
  named : target = project.join source.name
  content : ∃ bytes s, c.files.find? source = some (.file bytes) ∧ Text.decodeUtf8 bytes = .ok s
    ∧ c'.files.find? target =
      some (.file (Text.encodeUtf8 (String.ofList (Text.normalizeLineEnds s.toList))))
  fresh : c.files.contains target = false
  keeps : ∀ q, c.files.get? q ≠ none → c'.files.get? q = c.files.get? q
  elsewhere : ∀ q, c'.files.place target ≠ .ok q → c'.files.get? q = c.files.get? q
    ∨ c.files.get? q = none ∧ c'.files.get? q = some .directory ∧ project.Passes q
  kept : c'.kept = c.kept.filter fun e => e.1 != name
  directories : c'.library = c.library ∧ c'.project = c.project

theorem copied_of_saves {files : Store} {s : String} (hname : IsStem name)
    (hproject : c.project = some project)
    (hsource : fileIn? c.files c.library name = some source)
    (hnew : (c.withProject project).files.contains (project.join source.name) = false)
    (htext : textIn c.files source = .ok s)
    (hsaves : c.files.Saves files (project.join source.name) (Text.encodeUtf8 s)) :
    Copied c { c with files := files, kept := c.kept.filter fun e => e.1 != name } name project
      source (project.join source.name) := by
  rcases fileIn?_isName hname hsource with ⟨suffix, hsuffix, _, _, hisName⟩
  rcases fileIn?_eq_some hsource with ⟨_, _, _, hcontains⟩
  rcases find?_of_textIn_eq_ok hcontains htext with ⟨bytes, hfind, hbytes⟩
  rcases decodeUtf8_of_textOf hbytes with ⟨decoded, hdecode, rfl⟩
  have hgrows := hsaves.grows (by rw [Path.parent_join hisName]; exact hnew)
  constructor
  · exact hproject
  · exact hsource
  · rfl
  · exact ⟨bytes, decoded, hfind, hdecode, hsaves.find?⟩
  · cases hthere : c.files.contains (project.join source.name) with
    | false => rfl
    | true =>
        have hmade : (c.withProject project).files.contains (project.join source.name) = true :=
          (Store.provides_provide c.files project).grows.contains hthere
        rw [hnew] at hmade
        cases hmade
  · exact hgrows.keeps
  · intro q hq
    have hne : q ≠ (project.join source.name).resolved := by
      intro heq
      apply hq
      rw [heq]
      exact hsaves.place
    have helsewhere := hsaves.get?_of_ne hne
    rw [Path.parent_join hisName] at helsewhere
    exact helsewhere
  · rfl
  · exact ⟨rfl, rfl⟩

/-- Where copying fails nothing has changed but maybe the directories of the project. -/
theorem provides_of_failed_copying {e : Failure} (hname : IsStem name)
    (h : (copyToProject name).on c = (.error e, c')) :
    c' = c ∨ ∃ project files, c.project = some project ∧ c.files.Provides files project
      ∧ c' = { c with files := files } := by
  have hcopying := copyToProject_copying c hname
  rw [h] at hcopying
  have hmade : ∀ project, c.project = some project → ∃ project' files,
      c.project = some project' ∧ c.files.Provides files project'
        ∧ c.withProject project = { c with files := files } := fun project hproject =>
    ⟨project, _, hproject, Store.provides_provide c.files project, rfl⟩
  cases hcopying with
  | noProject => exact Or.inl rfl
  | refused project _ _ hproject => exact Or.inr (hmade project hproject)
  | there project _ hproject => exact Or.inr (hmade project hproject)
  | unreadable project _ _ hproject => exact Or.inr (hmade project hproject)

/-- Whether the directories of the project are made before it turns out that there is nothing to
copy: they are missing and can be made, and the file of the library has no text. -/
def MakesDirectoriesFirst (c : Catalog) (name : String) : Prop :=
  ∃ project source e, c.project = some project ∧ fileIn? c.files c.library name = some source
    ∧ c.files.contains project = false ∧ (c.files.provide project).2 = none
    ∧ ((readText source).on c).1 = .error e

theorem withProject_ne (h : c.files.contains project = false)
    (hmade : (c.files.provide project).2 = none) : c.withProject project ≠ c := by
  intro heq
  have hthere : (c.withProject project).files.contains project = true :=
    Store.contains_iff.mpr ⟨_, Store.find?_of_provide hmade⟩
  rw [heq, h] at hthere
  cases hthere

theorem failing_leaves_iff (hname : IsStem name) (hclosed : c.files.IsClosed)
    (hsettled : ∀ project ∈ c.project, c.files.IsSettled project) :
    (∀ e c', (copyToProject name).on c = (.error e, c') → c' = c) ↔
      ¬ MakesDirectoriesFirst c name := by
  have hcopying := copyToProject_copying c hname
  constructor
  · rintro hleaves ⟨project, source, e, hproject, hsource, hmissing, hmade, htext⟩
    rw [readText_on] at htext
    have hne := withProject_ne hmissing hmade
    generalize hon : (copyToProject name).on c = result at hcopying
    cases hcopying with
    | noProject hproject' =>
        rw [hproject] at hproject'
        cases hproject'
    | missing _ _ hsource' =>
        rw [hsource] at hsource'
        cases hsource'
    | refused _ _ _ hproject' _ hrefused =>
        rw [hproject] at hproject'
        cases hproject'
        rw [hmade] at hrefused
        cases hrefused
    | there _ _ hproject' _ _ _ =>
        rw [hproject] at hproject'
        cases hproject'
        exact hne (hleaves _ _ hon)
    | unreadable _ _ _ hproject' _ _ _ _ =>
        rw [hproject] at hproject'
        cases hproject'
        exact hne (hleaves _ _ hon)
    | copied _ _ _ _ _ hsource' _ htext' _ =>
        rw [hsource] at hsource'
        cases hsource'
        rw [htext] at htext'
        cases htext'
  · intro hfirst e c' hon
    rw [hon] at hcopying
    cases hcopying with
    | noProject => rfl
    | refused project _ _ hproject _ hrefused =>
        rw [withProject, Store.provide_of_refused hclosed (hsettled project hproject) hrefused]
    | there project source hproject hsource _ hthere =>
        rcases fileIn?_isName hname hsource with ⟨_, _, _, _, hisName⟩
        have hcontains := Store.contains_of_contains_join hclosed (hsettled project hproject)
          hisName hthere
        rw [withProject, Store.provide_of_contains hcontains]
    | unreadable project source e hproject hsource hmade _ htext =>
        cases hcontains : c.files.contains project with
        | true => rw [withProject, Store.provide_of_contains hcontains]
        | false =>
            exfalso
            rw [← readText_on] at htext
            exact hfirst ⟨project, source, e, hproject, hsource, hcontains, hmade, htext⟩

/-- Copying is all or nothing, but for the directories of a project that is missing: they are made
before the file of the library is read. -/
theorem copying_is_all_or_nothing_iff (c : Catalog) (hname : IsStem name) :
    (∀ c', (copyToProject name).on c = (.ok none, c') → c' = c)
      ∧ (∀ target c', (copyToProject name).on c = (.ok (some target), c') →
        ∃ project source, Copied c c' name project source target)
      ∧ (∀ e c', (copyToProject name).on c = (.error e, c') →
        c' = c ∨ ∃ project files, c.project = some project ∧ c.files.Provides files project
          ∧ c' = { c with files := files })
      ∧ (c.files.IsClosed → (∀ project ∈ c.project, c.files.IsSettled project) →
        ((∀ e c', (copyToProject name).on c = (.error e, c') → c' = c) ↔
          ¬ MakesDirectoriesFirst c name)) := by
  refine ⟨fun c' hon => ?_, fun target c' hon => ?_, fun e c' hon => ?_,
    failing_leaves_iff hname⟩
  · have hcopying := copyToProject_copying c hname
    rw [hon] at hcopying
    cases hcopying
    rfl
  · have hcopying := copyToProject_copying c hname
    rw [hon] at hcopying
    cases hcopying with
    | copied project source s files hproject hsource hnew htext hsaves =>
        exact ⟨project, source, copied_of_saves hname hproject hsource hnew htext hsaves⟩
  · exact provides_of_failed_copying hname hon

def unreadable : Catalog where
  files := ⟨[(⟨.here, ["library"]⟩, .directory), (⟨.here, ["library", "a.yaml"]⟩, .file [0xff])]⟩
  library := ⟨.here, ["library"]⟩
  project := some ⟨.here, ["project"]⟩
  kept := []

/-- There copying fails and leaves the directory of the project. -/
theorem unreadable_failing_makes_directories :
    IsStem "a" ∧ ∃ e c', (copyToProject "a").on unreadable = (.error e, c') ∧ c' ≠ unreadable := by
  have hname : IsStem "a" := by decide
  have hclosed : unreadable.files.IsClosed := by
    apply Store.isClosed_of_entries
    decide
  have hsettled : ∀ project ∈ unreadable.project, unreadable.files.IsSettled project := by
    intro project hproject
    cases hproject
    exact Or.inr (by decide)
  have hfirst : MakesDirectoriesFirst unreadable "a" :=
    ⟨⟨.here, ["project"]⟩, ⟨.here, ["library", "a.yaml"]⟩, _, rfl, by decide +kernel,
      by decide +kernel, by decide +kernel, rfl⟩
  have hnot := mt ((copying_is_all_or_nothing_iff unreadable hname).2.2.2 hclosed hsettled).mp
    (not_not_intro hfirst)
  push Not at hnot
  rcases hnot with ⟨e, c', hon, hne⟩
  exact ⟨hname, e, c', hon, hne⟩

end Catalog
end TextMate
