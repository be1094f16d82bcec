import TextMate.Proofs.Catalog.Work
import TextMate.Proofs.Files.Saving

/-!
# Writing grammars

A grammar is rendered before it is written.  So where there is no rendering nothing
has changed, and where there is one either it is in the file or the files refuse it.
The same holds of drafts.
-/

namespace TextMate
namespace Catalog

open Files

variable {c c' : Catalog} {p : Path} {given : Value}

/-!
## Saving texts
-/

theorem save_of_saves {files : Store} {s : String}
    (h : c.files.Saves files p (Text.encodeUtf8 s)) :
    (save p s).on c = (.ok (), { c with files := files }) := by
  unfold save
  rw [Work.on_bind_of_ok (provide_of_none h.provided)]
  exact change_of_ok h.written

/-- A text is saved, or the files refuse it after some directories were made. -/
theorem save_cases (c : Catalog) (p : Path) (s : String) :
    (∃ files, c.files.Saves files p (Text.encodeUtf8 s)
        ∧ (save p s).on c = (.ok (), { c with files := files }))
      ∨ ∃ files error, c.files.Provides files p.parent
        ∧ (save p s).on c = (.error (.file error), { c with files := files }) := by
  have hprovides := Store.provides_provide c.files p.parent
  rcases Option.eq_none_or_eq_some (c.files.provide p.parent).2 with hprovide | ⟨error, hprovide⟩
  · cases hwrite : (c.files.provide p.parent).1.write p (Text.encodeUtf8 s) with
    | ok files =>
        have hsaves : c.files.Saves files p (Text.encodeUtf8 s) := ⟨hprovide, hwrite⟩
        exact Or.inl ⟨files, hsaves, save_of_saves hsaves⟩
    | error error =>
        refine Or.inr ⟨_, error, hprovides, ?_⟩
        unfold save
        rw [Work.on_bind_of_ok (provide_of_none hprovide)]
        exact change_of_error hwrite
  · exact Or.inr ⟨_, error, hprovides, Work.on_bind_of_error (provide_of_some hprovide)⟩

/-- Nothing is new at a place but maybe a directory. -/
def AddsDirectory (files files' : Store) (q : Files.Place) : Prop :=
  files'.get? q = files.get? q ∨ files.get? q = none ∧ files'.get? q = some .directory

theorem addsDirectory_of_provides {files files' : Store} (h : files.Provides files' p)
    (q : Files.Place) : AddsDirectory files files' q := by
  rcases h.get? q with hsame | ⟨hnone, hdirectory, _⟩
  · exact Or.inl hsame
  · exact Or.inr ⟨hnone, hdirectory⟩

/-- A text was written: the file has it, and elsewhere nothing is new but directories. -/
structure Wrote (files files' : Store) (p : Path) (s : String) : Prop where
  content : files'.find? p = some (.file (Text.encodeUtf8 s))
  elsewhere : ∀ q, files'.place p ≠ .ok q → AddsDirectory files files' q

theorem wrote_of_saves {files files' : Store} {s : String}
    (h : files.Saves files' p (Text.encodeUtf8 s)) : Wrote files files' p s := by
  constructor
  · exact h.find?
  · intro q hq
    have hne : q ≠ p.resolved := by
      intro heq
      apply hq
      rw [heq, h.place]
    rcases h.get?_of_ne hne with hsame | ⟨hnone, hdirectory, _⟩
    · exact Or.inl hsame
    · exact Or.inr ⟨hnone, hdirectory⟩

/-!
## The format that is meant
-/

/-- Whether a format is meant: the one that is given or, if none is, JSON for a path that ends in
`.json` in any case and YAML for others. -/
def IsMeant (given : Value) (p : Path) (format : Format) : Prop :=
  if given.isTruthy then Format.ofValue given = .ok format
  else format = .json ↔ Text.lowercase p.suffix = ".json"

theorem isMeant_of_not_isTruthy (h : given.isTruthy = false) {format : Format} :
    IsMeant given p format ↔ format = p.format := by
  rw [IsMeant, if_neg (by simp [h]), Path.format]
  by_cases hsuffix : Text.lowercase p.suffix = ".json"
  · simp [hsuffix]
  · cases format <;> simp [hsuffix]

theorem isMeant_of_isTruthy (h : given.isTruthy = true) {format : Format} :
    IsMeant given p format ↔ Format.ofValue given = .ok format := by
  rw [IsMeant, if_pos h]

theorem formatFor_of_isMeant {format : Format} (h : IsMeant given p format) :
    (formatFor given p).on c = (.ok format, c) := by
  unfold formatFor
  by_cases htruthy : given.isTruthy = true
  · rw [if_pos htruthy, (isMeant_of_isTruthy htruthy).mp h]
    rfl
  · rw [if_neg htruthy, (isMeant_of_not_isTruthy (by simpa using htruthy)).mp h]
    rfl

theorem formatFor_of_unknown {e : FormatError} (htruthy : given.isTruthy = true)
    (h : Format.ofValue given = .error e) : (formatFor given p).on c = (.error (.format e), c) := by
  unfold formatFor
  rw [if_pos htruthy, h]
  rfl

theorem isMeant_or_unknown (given : Value) (p : Path) :
    (∃ format, IsMeant given p format) ∨
      given.isTruthy = true ∧ ∃ e, Format.ofValue given = .error e := by
  by_cases htruthy : given.isTruthy = true
  · cases hformat : Format.ofValue given with
    | ok format => exact Or.inl ⟨format, (isMeant_of_isTruthy htruthy).mpr hformat⟩
    | error e => exact Or.inr ⟨htruthy, e, rfl⟩
  · exact Or.inl ⟨p.format, (isMeant_of_not_isTruthy (by simpa using htruthy)).mpr rfl⟩

/-!
## Writing renderings
-/

def saveRendering (p : Path) (r : Rendering) : Work Rendering := do
  save p r.text
  return r

/-- Work that writes to a path is all or nothing: where nothing is rendered nothing changes, what is
rendered is saved if it can be, and then it is in the file.  If the files refuse it nothing is new
but directories. -/
structure IsAllOrNothing (w : Work Rendering) (c : Catalog) (p : Path) (given : Value)
    (rendered : Format → Except Failure Rendering) : Prop where
  unknown : ∀ e, given.isTruthy = true → Format.ofValue given = .error e →
    w.on c = (.error (.format e), c)
  unrendered : ∀ format e, IsMeant given p format → rendered format = .error e →
    w.on c = (.error e, c)
  accepted : ∀ format r files, IsMeant given p format → rendered format = .ok r →
    c.files.Saves files p (Text.encodeUtf8 r.text) → w.on c = (.ok r, { c with files := files })
  written : ∀ r c', w.on c = (.ok r, c') →
    ∃ format, IsMeant given p format ∧ rendered format = .ok r ∧ Wrote c.files c'.files p r.text
  refused : ∀ e c', w.on c = (.error e, c') →
    c' = c ∨ (∃ error, e = .file error) ∧ ∀ q, AddsDirectory c.files c'.files q

theorem saveRendering_of_saves {files : Store} {r : Rendering}
    (h : c.files.Saves files p (Text.encodeUtf8 r.text)) :
    (saveRendering p r).on c = (.ok r, { c with files := files }) :=
  Work.on_bind_of_ok (save_of_saves h)

theorem saveRendering_cases (c : Catalog) (p : Path) (r : Rendering) :
    (∃ files, c.files.Saves files p (Text.encodeUtf8 r.text)
        ∧ (saveRendering p r).on c = (.ok r, { c with files := files }))
      ∨ ∃ files error, c.files.Provides files p.parent
        ∧ (saveRendering p r).on c = (.error (.file error), { c with files := files }) := by
  rcases save_cases c p r.text with ⟨files, hsaves, _⟩ | ⟨files, error, hprovides, hsave⟩
  · exact Or.inl ⟨files, hsaves, saveRendering_of_saves hsaves⟩
  · exact Or.inr ⟨files, error, hprovides, Work.on_bind_of_error hsave⟩

theorem isAllOrNothing_of_on {w : Work Rendering} {rendered : Format → Except Failure Rendering}
    (hunknown : ∀ e, given.isTruthy = true → Format.ofValue given = .error e →
      w.on c = (.error (.format e), c))
    (herror : ∀ format e, IsMeant given p format → rendered format = .error e →
      w.on c = (.error e, c))
    (hok : ∀ format r, IsMeant given p format → rendered format = .ok r →
      w.on c = (saveRendering p r).on c) :
    IsAllOrNothing w c p given rendered := by
  have houtcome : (∃ e, w.on c = (.error e, c)) ∨ ∃ format r,
      IsMeant given p format ∧ rendered format = .ok r ∧ w.on c = (saveRendering p r).on c := by
    rcases isMeant_or_unknown given p with ⟨format, hmeant⟩ | ⟨htruthy, e, hformat⟩
    · cases hrendered : rendered format with
      | error e => exact Or.inl ⟨e, herror format e hmeant hrendered⟩
      | ok r => exact Or.inr ⟨format, r, hmeant, hrendered, hok format r hmeant hrendered⟩
    · exact Or.inl ⟨_, hunknown e htruthy hformat⟩
  constructor
  · exact hunknown
  · exact herror
  · intro format r files hmeant hrendered hsaves
    rw [hok format r hmeant hrendered]
    exact saveRendering_of_saves hsaves
  · intro r c' hw
    rcases houtcome with ⟨e, houtcome⟩ | ⟨format, r', hmeant, hrendered, houtcome⟩
    · rw [houtcome] at hw
      cases hw
    · rw [houtcome] at hw
      rcases saveRendering_cases c p r' with ⟨files, hsaves, hsave⟩ | ⟨_, _, _, hsave⟩
      · rw [hsave] at hw
        cases hw
        exact ⟨format, hmeant, hrendered, wrote_of_saves hsaves⟩
      · rw [hsave] at hw
        cases hw
  · intro e c' hw
    rcases houtcome with ⟨e', houtcome⟩ | ⟨format, r, _, _, houtcome⟩
    · rw [houtcome] at hw
      cases hw
      exact Or.inl rfl
    · rw [houtcome] at hw
      rcases saveRendering_cases c p r with ⟨_, _, hsave⟩ | ⟨files, error, hprovides, hsave⟩
      · rw [hsave] at hw
        cases hw
      · rw [hsave] at hw
        cases hw
        exact Or.inr ⟨⟨error, rfl⟩, addsDirectory_of_provides hprovides⟩

section Write

variable {g : Grammar} {format : Format}

theorem render_answers : (render g format).Answers c ((g.render format).mapError .dangling) := by
  unfold render
  cases g.render format with
  | ok r => rfl
  | error d => rfl

theorem write_of_unknown {e : FormatError} (htruthy : given.isTruthy = true)
    (hformat : Format.ofValue given = .error e) :
    (write g p given).on c = (.error (.format e), c) :=
  Work.on_bind_of_error (formatFor_of_unknown htruthy hformat)

theorem write_of_dangling {d : DanglingReferences} (hmeant : IsMeant given p format)
    (hrender : g.render format = .error d) :
    (write g p given).on c = (.error (.dangling d), c) := by
  apply (Work.on_bind_of_ok (formatFor_of_isMeant hmeant)).trans
  apply Work.on_bind_of_error
  rw [show (render g format).on c = _ from render_answers, hrender]
  rfl

theorem write_of_rendered {r : Rendering} (hmeant : IsMeant given p format)
    (hrender : g.render format = .ok r) :
    (write g p given).on c = (saveRendering p r).on c := by
  apply (Work.on_bind_of_ok (formatFor_of_isMeant hmeant)).trans
  apply Work.on_bind_of_ok
  rw [show (render g format).on c = _ from render_answers, hrender]
  rfl

end Write

theorem isAllOrNothing_write (c : Catalog) (g : Grammar) (p : Path) (given : Value) :
    IsAllOrNothing (write g p given) c p given fun format =>
      (g.render format).mapError .dangling := by
  apply isAllOrNothing_of_on
  · intro e htruthy hformat
    exact write_of_unknown htruthy hformat
  · intro format e hmeant hrendered
    cases hrender : g.render format with
    | ok r =>
        rw [hrender] at hrendered
        cases hrendered
    | error d =>
        rw [hrender] at hrendered
        cases hrendered
        exact write_of_dangling hmeant hrender
  · intro format r hmeant hrendered
    cases hrender : g.render format with
    | ok r' =>
        rw [hrender] at hrendered
        cases hrendered
        exact write_of_rendered hmeant hrender
    | error d =>
        rw [hrender] at hrendered
        cases hrendered

theorem isAllOrNothing_writeDraft (c : Catalog) (g : Value) (p : Path) (given : Value) :
    IsAllOrNothing (writeDraft g p given) c p given fun format =>
      (Draft.render format g).mapError .draft := by
  apply isAllOrNothing_of_on
  · intro e htruthy hformat
    exact Work.on_bind_of_error (formatFor_of_unknown htruthy hformat)
  · intro format e hmeant hrendered
    apply (Work.on_bind_of_ok (formatFor_of_isMeant hmeant)).trans
    cases hdraft : Draft.render format g with
    | ok r =>
        rw [hdraft] at hrendered
        cases hrendered
    | error fault =>
        rw [hdraft] at hrendered
        cases hrendered
        rfl
  · intro format r hmeant hrendered
    apply (Work.on_bind_of_ok (formatFor_of_isMeant hmeant)).trans
    cases hdraft : Draft.render format g with
    | ok r' =>
        rw [hdraft] at hrendered
        cases hrendered
        rfl
    | error fault =>
        rw [hdraft] at hrendered
        cases hrendered

end Catalog
end TextMate
