import TextMate.Proofs.Catalog.Listing
import TextMate.Proofs.Catalog.Saving
import TextMate.Server.Tool

/-!
# Exporting grammars

The tool that exports a grammar looks for it, reads the format and writes the file.
Only the last step changes files, and only after the grammar was rendered.  The stem
of the file is put into its path as it comes, so it decides whether the file is in
the output directory.
-/

namespace TextMate
namespace Server

open Catalog Files

variable {c c' : Catalog} {output : Path} {name : String} {format : Value}
  {outputName : Option String}

/-!
## The steps of an export
-/

def stemFor (name : String) (outputName : Option String) : String :=
  if Issue.shows outputName then outputName.getD name else name

def exportedAnswer (name : String) (path : Path) (f : Format) (r : Rendering) : Tree :=
  success
    [("path", .text path.text), ("format", .text f.name), ("warnings", texts r.warnings),
      ("message", .text ("Exported grammar '" ++ name ++ "' to " ++ path.text ++ "."))]

def exporting (output : Path) (name : String) (format : Value) (outputName : Option String) :
    Work Tree :=
  (Call.export name format outputName).run output

theorem ofValue_name (f : Format) : Format.ofValue (.text f.name) = .ok f := by
  cases f
  · decide +kernel
  · decide +kernel

theorem isMeant_name (f : Format) (p : Path) : IsMeant (.text f.name) p f := by
  apply (isMeant_of_isTruthy _).mpr (ofValue_name f)
  cases f
  · decide +kernel
  · decide +kernel

theorem readFormat_answers :
    (readFormat format).Answers c ((Format.ofValue format).mapError .format) := by
  unfold readFormat
  cases Format.ofValue format with
  | ok f => rfl
  | error e => rfl

theorem readFormat_of_ok {f : Format} (h : Format.ofValue format = .ok f) :
    (readFormat format).on c = (.ok f, c) := by
  rw [show (readFormat format).on c = _ from readFormat_answers, h]
  rfl

theorem readFormat_of_error {e : FormatError} (h : Format.ofValue format = .error e) :
    (readFormat format).on c = (.error (.format e), c) := by
  rw [show (readFormat format).on c = _ from readFormat_answers, h]
  rfl

section Steps

variable {g : Grammar} {f : Format}

theorem exporting_of_missing (h : (grammar? name).on c = (.ok none, c')) :
    (exporting output name format outputName).on c = (.ok (notFound name), c') :=
  Work.on_bind_of_ok h

theorem exporting_of_unloaded {e : Failure} (h : (grammar? name).on c = (.error e, c')) :
    (exporting output name format outputName).on c = (.error e, c') :=
  Work.on_bind_of_error h

theorem exporting_of_unknown {e : FormatError} (h : (grammar? name).on c = (.ok (some g), c'))
    (hformat : Format.ofValue format = .error e) :
    (exporting output name format outputName).on c = (.error (.format e), c') :=
  (Work.on_bind_of_ok h).trans (Work.on_bind_of_error (readFormat_of_error hformat))

theorem exporting_of_dangling {d : DanglingReferences}
    (h : (grammar? name).on c = (.ok (some g), c')) (hformat : Format.ofValue format = .ok f)
    (hrender : g.render f = .error d) :
    (exporting output name format outputName).on c = (.error (.dangling d), c') := by
  apply (Work.on_bind_of_ok h).trans
  apply (Work.on_bind_of_ok (readFormat_of_ok hformat)).trans
  exact Work.on_bind_of_error (write_of_dangling (isMeant_name f _) hrender)

/-- What is left to do where a grammar is found and rendered: it is saved, and then answered. -/
theorem exporting_eq {r : Rendering} (h : (grammar? name).on c = (.ok (some g), c'))
    (hformat : Format.ofValue format = .ok f) (hrender : g.render f = .ok r) :
    let path := exportPath output (stemFor name outputName) f
    (exporting output name format outputName).on c =
      (saveRendering path r >>= fun r => pure (exportedAnswer name path f r)).on c' := by
  intro path
  have hstart : (exporting output name format outputName).on c =
      (write g path (.text f.name) >>= fun r => pure (exportedAnswer name path f r)).on c' :=
    (Work.on_bind_of_ok h).trans (Work.on_bind_of_ok (readFormat_of_ok hformat))
  have hwrite := @write_of_rendered c' path _ g f r (isMeant_name f path) hrender
  rw [hstart]
  exact Work.on_bind_congr hwrite

theorem exporting_of_rendered {r : Rendering} (h : (grammar? name).on c = (.ok (some g), c'))
    (hformat : Format.ofValue format = .ok f) (hrender : g.render f = .ok r) :
    let path := exportPath output (stemFor name outputName) f
    (∃ files, c.files.Saves files path (Text.encodeUtf8 r.text)
        ∧ (exporting output name format outputName).on c =
          (.ok (exportedAnswer name path f r), { c' with files := files }))
      ∨ ∃ files error, c.files.Provides files path.parent
        ∧ (exporting output name format outputName).on c =
          (.error (.file error), { c' with files := files }) := by
  intro path
  rw [exporting_eq h hformat hrender, ← files_of_grammar? h]
  rcases saveRendering_cases c' path r with
    ⟨files, hsaves, hsave⟩ | ⟨files, error, hprovides, hsave⟩
  · exact Or.inl ⟨files, hsaves, Work.on_bind_of_ok hsave⟩
  · exact Or.inr ⟨files, error, hprovides, Work.on_bind_of_error hsave⟩

theorem exporting_cases (c : Catalog) (output : Path) (name : String) (format : Value)
    (outputName : Option String) :
    ((exporting output name format outputName).on c).2.files = c.files
      ∨ ∃ g c' f r, (grammar? name).on c = (.ok (some g), c') ∧ Format.ofValue format = .ok f
        ∧ g.render f = .ok r := by
  rcases hgrammar : (grammar? name).on c with ⟨answer, c'⟩
  have hfiles := files_of_grammar? hgrammar
  cases answer with
  | error e =>
      rw [exporting_of_unloaded hgrammar]
      exact Or.inl hfiles
  | ok found =>
      cases found with
      | none =>
          rw [exporting_of_missing hgrammar]
          exact Or.inl hfiles
      | some g =>
          cases hformat : Format.ofValue format with
          | error e =>
              rw [exporting_of_unknown hgrammar hformat]
              exact Or.inl hfiles
          | ok f =>
              cases hrender : g.render f with
              | error d =>
                  rw [exporting_of_dangling hgrammar hformat hrender]
                  exact Or.inl hfiles
              | ok r => exact Or.inr ⟨g, c', f, r, rfl, rfl, hrender⟩

end Steps

/-!
## All or nothing
-/

/-- An export is all or nothing: where there is no rendering the files are as before, a rendering is
saved if it can be, and then it is in the file that the answer names.  If the files refuse it
nothing is new but directories. -/
structure ExportIsAllOrNothing (c : Catalog) (output : Path) (name : String) (format : Value)
    (outputName : Option String) : Prop where
  missing : ∀ c', (grammar? name).on c = (.ok none, c') →
    (exporting output name format outputName).on c = (.ok (notFound name), c')
      ∧ c'.files = c.files
  unloaded : ∀ e c', (grammar? name).on c = (.error e, c') →
    (exporting output name format outputName).on c = (.error e, c') ∧ c'.files = c.files
  unknown : ∀ g c' e, (grammar? name).on c = (.ok (some g), c') →
    Format.ofValue format = .error e →
    (exporting output name format outputName).on c = (.error (.format e), c')
      ∧ c'.files = c.files
  unrendered : ∀ g c' f d, (grammar? name).on c = (.ok (some g), c') →
    Format.ofValue format = .ok f → g.render f = .error d →
    (exporting output name format outputName).on c = (.error (.dangling d), c')
      ∧ c'.files = c.files
  accepted : ∀ g kept f r files, (grammar? name).on c = (.ok (some g), kept) →
    Format.ofValue format = .ok f → g.render f = .ok r →
    c.files.Saves files (exportPath output (stemFor name outputName) f) (Text.encodeUtf8 r.text) →
    (exporting output name format outputName).on c =
      (.ok (exportedAnswer name (exportPath output (stemFor name outputName) f) f r),
        { kept with files := files })
  written : ∀ g kept t c', (grammar? name).on c = (.ok (some g), kept) →
    (exporting output name format outputName).on c = (.ok t, c') →
    ∃ f r, Format.ofValue format = .ok f ∧ g.render f = .ok r
      ∧ t = exportedAnswer name (exportPath output (stemFor name outputName) f) f r
      ∧ Wrote c.files c'.files (exportPath output (stemFor name outputName) f) r.text
  refused : ∀ e c', (exporting output name format outputName).on c = (.error e, c') →
    c'.files = c.files
      ∨ (∃ error, e = .file error) ∧ ∀ q, AddsDirectory c.files c'.files q

theorem exportIsAllOrNothing (c : Catalog) (output : Path) (name : String) (format : Value)
    (outputName : Option String) : ExportIsAllOrNothing c output name format outputName := by
  constructor
  · intro c' h
    exact ⟨exporting_of_missing h, files_of_grammar? h⟩
  · intro e c' h
    exact ⟨exporting_of_unloaded h, files_of_grammar? h⟩
  · intro g c' e h hformat
    exact ⟨exporting_of_unknown h hformat, files_of_grammar? h⟩
  · intro g c' f d h hformat hrender
    exact ⟨exporting_of_dangling h hformat hrender, files_of_grammar? h⟩
  · intro g kept f r files h hformat hrender hsaves
    rw [← files_of_grammar? h] at hsaves
    exact (exporting_eq h hformat hrender).trans
      (Work.on_bind_of_ok (saveRendering_of_saves hsaves))
  · intro g kept t c' hgrammar h
    cases hformat : Format.ofValue format with
    | error e =>
        rw [exporting_of_unknown hgrammar hformat] at h
        cases h
    | ok f =>
        cases hrender : g.render f with
        | error d =>
            rw [exporting_of_dangling hgrammar hformat hrender] at h
            cases h
        | ok r =>
            refine ⟨f, r, rfl, hrender, ?_⟩
            rcases exporting_of_rendered hgrammar hformat hrender with
              ⟨files, hsaves, hexport⟩ | ⟨_, _, _, hexport⟩
            · rw [hexport] at h
              cases h
              exact ⟨rfl, wrote_of_saves hsaves⟩
            · rw [hexport] at h
              cases h
  · intro e c' h
    rcases exporting_cases c output name format outputName with
      hfiles | ⟨g, kept, f, r, hgrammar, hformat, hrender⟩
    · rw [h] at hfiles
      exact Or.inl hfiles
    · rcases exporting_of_rendered hgrammar hformat hrender with
        ⟨_, _, hexport⟩ | ⟨files, error, hprovides, hexport⟩
      · rw [hexport] at h
        cases h
      · rw [hexport] at h
        cases h
        exact Or.inr ⟨⟨error, rfl⟩, addsDirectory_of_provides hprovides⟩

/-- Writing a grammar or a draft and exporting a grammar are all or nothing with respect to
rendering, whatever the files are. -/
theorem writing_is_all_or_nothing (c : Catalog) :
    (∀ g p given, IsAllOrNothing (write g p given) c p given fun format =>
        (g.render format).mapError .dangling)
      ∧ (∀ g p given, IsAllOrNothing (writeDraft g p given) c p given fun format =>
        (Draft.render format g).mapError .draft)
      ∧ ∀ output name format outputName,
        ExportIsAllOrNothing c output name format outputName :=
  ⟨isAllOrNothing_write c, isAllOrNothing_writeDraft c, exportIsAllOrNothing c⟩

def keeping : Catalog where
  files := ⟨[]⟩
  library := ⟨.here, ["library"]⟩
  project := none
  kept := [("a", plainest)]

def keepingAnswer (path : Path) : Tree :=
  exportedAnswer "a" path .json ⟨plainestText, .json, []⟩

theorem exporting_keeping :
    (exporting ⟨.here, ["out"]⟩ "a" (.text "json") none).on keeping =
      (.ok (keepingAnswer ⟨.here, ["out", "a.tmLanguage.json"]⟩),
        { keeping with
          files := ⟨[(⟨.here, ["out"]⟩, .directory),
            (⟨.here, ["out", "a.tmLanguage.json"]⟩, .file (Text.encodeUtf8 plainestText))]⟩ }) := by
  rfl

/-- The file of that export has the rendered text. -/
theorem keeping_export_is_written :
    ∃ r, plainest.render .json = .ok r
      ∧ Wrote keeping.files
        ((exporting ⟨.here, ["out"]⟩ "a" (.text "json") none).on keeping).2.files
        ⟨.here, ["out", "a.tmLanguage.json"]⟩ r.text := by
  rcases ((writing_is_all_or_nothing keeping).2.2 ⟨.here, ["out"]⟩ "a" (.text "json")
    none).written plainest keeping _ _ rfl exporting_keeping with
      ⟨f, r, hformat, hrender, _, hwrote⟩
  rw [show Format.ofValue (.text "json") = .ok .json from ofValue_name .json] at hformat
  cases hformat
  refine ⟨r, hrender, ?_⟩
  rw [exporting_keeping]
  exact hwrote

/-!
## Where exports go
-/

end Server
end TextMate
