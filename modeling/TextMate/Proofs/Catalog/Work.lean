import TextMate.Catalog.Basic
import TextMate.Proofs.Each
import TextMate.Proofs.Files.Follow

/-!
# Work on catalogs

Work gives an answer, or the cause of its failure, and leaves a catalog behind.
Looking for files, reading and listing leave the catalog as it is, so they come
down to what they answer.
-/

namespace TextMate
namespace Catalog

open Files

variable {α β : Type}

namespace Work

/-- The answer of work on a catalog, or why it fails, and the catalog after it. -/
def on (w : Work α) (c : Catalog) : Except Failure α × Catalog :=
  w.run.run c

variable {c c' : Catalog} {w : Work α} {f : α → Work β} {a : α} {e : Failure}

@[simp] theorem on_pure : (pure a : Work α).on c = (.ok a, c) := rfl

@[simp] theorem on_throw : (throw e : Work α).on c = (.error e, c) := rfl

@[simp] theorem on_get : (get : Work Catalog).on c = (.ok c, c) := rfl

@[simp] theorem on_modify (change : Catalog → Catalog) :
    (modify change : Work Unit).on c = (.ok (), change c) := rfl

theorem on_bind_of_ok (h : w.on c = (.ok a, c')) : (w >>= f).on c = (f a).on c' := by
  simp only [on, ExceptT.run, bind, ExceptT.bind, ExceptT.mk, StateT.bind, StateT.run] at *
  rw [h]
  rfl

theorem on_bind_of_error (h : w.on c = (.error e, c')) : (w >>= f).on c = (.error e, c') := by
  simp only [on, ExceptT.run, bind, ExceptT.bind, ExceptT.mk, StateT.bind, StateT.run] at *
  rw [h]
  rfl

theorem on_bind_congr {w' : Work α} (h : w.on c = w'.on c) :
    (w >>= f).on c = (w' >>= f).on c := by
  rcases hw : w'.on c with ⟨answer, c'⟩
  rw [hw] at h
  cases answer with
  | ok a => rw [on_bind_of_ok h, on_bind_of_ok hw]
  | error e => rw [on_bind_of_error h, on_bind_of_error hw]

/-- Work has an answer at a catalog and leaves it as it is. -/
def Answers (w : Work α) (c : Catalog) (answer : Except Failure α) : Prop :=
  w.on c = (answer, c)

theorem answers_pure (a : α) : (pure a : Work α).Answers c (.ok a) := rfl

theorem answers_throw (e : Failure) : (throw e : Work α).Answers c (.error e) := rfl

theorem answers_get : (get : Work Catalog).Answers c (.ok c) := rfl

theorem Answers.bind {answer : Except Failure α} {next : α → Except Failure β}
    (hw : w.Answers c answer) (hf : ∀ a, (f a).Answers c (next a)) :
    (w >>= f).Answers c (answer.bind next) := by
  cases answer with
  | ok a => exact (on_bind_of_ok hw).trans (hf a)
  | error e => exact on_bind_of_error hw

theorem Answers.map {answer : Except Failure α} (hw : w.Answers c answer) (g : α → β) :
    (w >>= fun a => pure (g a)).Answers c (answer.map g) := by
  have h := hw.bind fun a => answers_pure (g a)
  cases answer with
  | ok a => exact h
  | error e => exact h

theorem Answers.tryCatch {answer : Except Failure α} {handle : Failure → Work α}
    {handled : Failure → Except Failure α} (hw : w.Answers c answer)
    (hhandle : ∀ e, (handle e).Answers c (handled e)) :
    (tryCatch w handle).Answers c (answer.tryCatch handled) := by
  simp only [Answers, on, MonadExcept.tryCatch, tryCatchThe, MonadExceptOf.tryCatch,
    ExceptT.tryCatch, ExceptT.run, ExceptT.mk, Bind.bind, StateT.bind, StateT.run] at *
  rw [hw]
  cases answer with
  | ok a => rfl
  | error e => exact hhandle e

theorem answers_ite {p : Prop} [Decidable p] {w' : Work α} {answer answer' : Except Failure α}
    (h : w.Answers c answer) (h' : w'.Answers c answer') :
    (if p then w else w').Answers c (if p then answer else answer') := by
  split
  · exact h
  · exact h'

theorem answers_mapM {g : α → Work β} {answer : α → Except Failure β}
    (h : ∀ a, (g a).Answers c (answer a)) (as : List α) :
    (as.mapM g).Answers c (as.mapM answer) := by
  induction as with
  | nil => exact answers_pure []
  | cons a as ih =>
      simp only [List.mapM_cons]
      exact (h a).bind fun b => ih.bind fun bs => answers_pure (b :: bs)

end Work

/-!
## Reading
-/

variable {c : Catalog}

theorem look_answers (f : Store → Except FileError α) :
    (look f).Answers c ((f c.files).mapError .file) := by
  apply Work.answers_get.bind
  intro c
  cases f c.files with
  | ok a => rfl
  | error e => rfl

def textOf (bytes : List UInt8) : Except Failure String :=
  ((Text.decodeUtf8 bytes).map fun s => String.ofList (Text.normalizeLineEnds s.toList)).mapError
    .encoding

def decoded (format : Format) (bytes : List UInt8) : Except Failure Grammar :=
  (textOf bytes).bind fun s => (Grammar.ofText format s).mapError .source

def loaded (files : Store) (p : Path) : Except Failure Grammar :=
  ((files.read p).mapError .file).bind (decoded p.format)

def textIn (files : Store) (p : Path) : Except Failure String :=
  ((files.read p).mapError .file).bind textOf

theorem readText_answers (p : Path) : (readText p).Answers c (textIn c.files p) := by
  apply (look_answers _).bind
  intro bytes
  unfold textOf
  cases Text.decodeUtf8 bytes with
  | ok s => rfl
  | error fault => rfl

theorem loaded_eq_bind (files : Store) (p : Path) :
    loaded files p =
      (textIn files p).bind fun s => (Grammar.ofText p.format s).mapError .source := by
  rw [loaded, textIn]
  cases files.read p with
  | ok bytes => rfl
  | error error => rfl

theorem load_answers (p : Path) : (load p).Answers c (loaded c.files p) := by
  rw [loaded_eq_bind]
  apply (readText_answers p).bind
  intro s
  cases Grammar.ofText p.format s with
  | ok g => rfl
  | error e => rfl

theorem loaded_eq_of_find? {files : Store} {p : Path} {bytes : List UInt8}
    (h : files.find? p = some (.file bytes)) : loaded files p = decoded p.format bytes := by
  rw [loaded, Store.read_of_find? h]
  rfl

theorem find?_of_loaded {files : Store} {p : Path} {g : Grammar}
    (h : loaded files p = .ok g) : ∃ bytes, files.find? p = some (.file bytes) := by
  unfold loaded Store.read at h
  cases hplace : files.place p with
  | error e =>
      rw [hplace] at h
      cases h
  | ok q =>
      rw [hplace] at h
      simp only [bind, Except.bind] at h
      cases hget : files.get? q with
      | none =>
          rw [hget] at h
          cases h
      | some entry =>
          cases entry with
          | directory =>
              rw [hget] at h
              cases h
          | file bytes =>
              exact ⟨bytes, Store.find?_eq_some_iff.mpr ⟨q, hplace, hget⟩⟩

/-!
## Listing
-/

def filesIn (files : Store) (directory : Path) : Except Failure (List Path) :=
  if files.contains directory then
    ((files.children directory).mapError Failure.file).map fun paths =>
      (paths.filter fun p => suffixes.contains (Text.lowercase p.suffix)).mergeSort
        fun a b => !(b.name < a.name)
  else .ok []

def summarized (files : Store) (p : Path) : Except Failure (Option Summary) :=
  ((loaded files p).map fun g => some (g.summary p.stem (some p.text))).tryCatch
    fun failure => if failure.isSkipped then .ok none else .error failure

def summariesOf (files : Store) (directory : Path) : Except Failure (List Summary) :=
  ((filesIn files directory).bind fun paths => paths.mapM fun p => summarized files p).map
    (·.filterMap id)

def met (c : Catalog) : Except Failure (List Summary) :=
  ((c.library :: c.project.toList).mapM (summariesOf c.files)).map List.flatten

def listed (c : Catalog) : Except Failure (List Summary) :=
  (met c).map fun summaries =>
    (summaries.foldl addSummary []).mergeSort fun a b => !(b.name < a.name)

theorem grammarFiles_answers (directory : Path) :
    (grammarFiles directory).Answers c (filesIn c.files directory) := by
  apply (Work.on_bind_of_ok Work.on_get).trans
  exact Work.answers_ite ((look_answers _).map _) (Work.answers_pure [])

theorem summaryOf_answers (p : Path) : (summaryOf p).Answers c (summarized c.files p) := by
  apply ((load_answers p).map _).tryCatch
  intro failure
  exact Work.answers_ite (Work.answers_pure none) (Work.answers_throw failure)

theorem summariesIn_answers (directory : Path) :
    (summariesIn directory).Answers c (summariesOf c.files directory) := by
  have h := (grammarFiles_answers (c := c) directory).bind fun paths =>
    Work.answers_mapM summaryOf_answers paths
  have h' := h.map fun summaries : List (Option Summary) => summaries.filterMap id
  unfold summariesIn
  rw [← bind_assoc]
  exact h'

theorem list_answers : list.Answers c (listed c) := by
  have h := (Work.answers_mapM (c := c) summariesIn_answers (c.library :: c.project.toList)).map
    List.flatten
  have h' := h.map fun summaries =>
    (summaries.foldl addSummary []).mergeSort fun a b => !(b.name < a.name)
  rw [bind_assoc] at h'
  exact (Work.on_bind_of_ok Work.on_get).trans h'

/-!
## Asking for grammars
-/

variable {name : String} {p : Path} {g : Grammar} {e : Failure}

theorem grammar?_of_kept {entry : String × Grammar}
    (h : c.kept.find? (fun e => e.1 == name) = some entry) :
    (grammar? name).on c = (.ok (some entry.2), c) := by
  unfold grammar?
  rw [Work.on_bind_of_ok Work.on_get]
  simp only [h]
  rfl

theorem grammar?_of_missing (h : c.kept.find? (fun e => e.1 == name) = none)
    (hfind : c.findFile? name = none) : (grammar? name).on c = (.ok none, c) := by
  unfold grammar?
  rw [Work.on_bind_of_ok Work.on_get]
  simp only [h, hfind]
  rfl

theorem grammar?_of_loaded (h : c.kept.find? (fun e => e.1 == name) = none)
    (hfind : c.findFile? name = some p) (hload : loaded c.files p = .ok g) :
    (grammar? name).on c = (.ok (some g), { c with kept := c.kept ++ [(name, g)] }) := by
  have hanswer := load_answers (c := c) p
  rw [hload] at hanswer
  unfold grammar?
  rw [Work.on_bind_of_ok Work.on_get]
  simp only [h, hfind]
  exact Work.on_bind_of_ok hanswer

theorem grammar?_of_failed (h : c.kept.find? (fun e => e.1 == name) = none)
    (hfind : c.findFile? name = some p) (hload : loaded c.files p = .error e) :
    (grammar? name).on c = (.error e, c) := by
  have hanswer := load_answers (c := c) p
  rw [hload] at hanswer
  unfold grammar?
  rw [Work.on_bind_of_ok Work.on_get]
  simp only [h, hfind]
  exact Work.on_bind_of_error hanswer

theorem files_of_grammar? {answer : Except Failure (Option Grammar)} {c' : Catalog}
    (h : (grammar? name).on c = (answer, c')) : c'.files = c.files := by
  cases hkept : c.kept.find? fun e => e.1 == name with
  | some entry =>
      rw [grammar?_of_kept hkept] at h
      cases h
      rfl
  | none =>
      cases hfind : c.findFile? name with
      | none =>
          rw [grammar?_of_missing hkept hfind] at h
          cases h
          rfl
      | some p =>
          cases hload : loaded c.files p with
          | error e =>
              rw [grammar?_of_failed hkept hfind hload] at h
              cases h
              rfl
          | ok g =>
              rw [grammar?_of_loaded hkept hfind hload] at h
              cases h
              rfl

/-!
## Changing files
-/

theorem provide_of_none (h : (c.files.provide p).2 = none) :
    (provide p).on c = (.ok (), { c with files := (c.files.provide p).1 }) := by
  unfold provide
  rw [Work.on_bind_of_ok Work.on_get]
  dsimp only
  rw [Work.on_bind_of_ok (Work.on_modify _), h]
  rfl

theorem provide_of_some {error : FileError} (h : (c.files.provide p).2 = some error) :
    (provide p).on c = (.error (.file error), { c with files := (c.files.provide p).1 }) := by
  unfold provide
  rw [Work.on_bind_of_ok Work.on_get]
  dsimp only
  rw [Work.on_bind_of_ok (Work.on_modify _), h]
  rfl

theorem change_of_ok {f : Store → Except FileError Store} {files : Store}
    (h : f c.files = .ok files) : (change f).on c = (.ok (), { c with files := files }) := by
  have hlook := look_answers (c := c) f
  rw [h] at hlook
  unfold change
  exact Work.on_bind_of_ok hlook

theorem change_of_error {f : Store → Except FileError Store} {error : FileError}
    (h : f c.files = .error error) : (change f).on c = (.error (.file error), c) := by
  have hlook := look_answers (c := c) f
  rw [h] at hlook
  unfold change
  exact Work.on_bind_of_error hlook

end Catalog
end TextMate
