import TextMate.Catalog.Failure
import TextMate.Draft.Render
import TextMate.Grammar.Render

/-!
# Catalogs

A catalog finds grammars by name in two directories: the *library*, and the
*project*, whose grammars come first.  The name of a grammar is its file's name
without the suffix.  Grammars that were asked for by name are kept, so a later
change of the file does not show until the kept ones are forgotten.

Work on a catalog may fail.  What it did to the files before the failure stays
done.
-/

namespace TextMate

/-- Files, the directories that hold grammars, and the grammars that were asked for. -/
structure Catalog where
  files : Files.Store
  library : Files.Path
  project : Option Files.Path
  kept : List (String × Grammar)

namespace Catalog

open Files

abbrev Work := ExceptT Failure (StateM Catalog)

def suffixes : List String :=
  [".yaml", ".yml", ".json"]

def look {α : Type} (f : Store → Except FileError α) : Work α := do
  match f (← get).files with
  | .ok a => return a
  | .error e => throw (.file e)

def change (f : Store → Except FileError Store) : Work Unit := do
  let files ← look f
  modify fun c => { c with files := files }

def provide (p : Path) : Work Unit := do
  let (files, e) := (← get).files.provide p
  modify fun c => { c with files := files }
  match e with
  | some e => throw (.file e)
  | none => return ()

/-! ## Reading -/

def readText (p : Path) : Work String := do
  match Text.decodeUtf8 (← look fun files => files.read p) with
  | .ok s => return String.ofList (Text.normalizeLineEnds s.toList)
  | .error fault => throw (.encoding fault)

def load (p : Path) : Work Grammar := do
  match Grammar.ofText p.format (← readText p) with
  | .ok g => return g
  | .error e => throw (.source e)

/-! ## Finding -/

def fileIn? (files : Store) (directory : Path) (name : String) : Option Path :=
  (suffixes.map fun suffix => directory.join (name ++ suffix)).find? files.contains

def findFile? (c : Catalog) (name : String) : Option Path :=
  (c.project.toList ++ [c.library]).findSome? fun directory =>
    if c.files.contains directory then fileIn? c.files directory name else none

def grammar? (name : String) : Work (Option Grammar) := do
  let c ← get
  match c.kept.find? fun e => e.1 == name with
  | some e => return some e.2
  | none =>
      match c.findFile? name with
      | none => return none
      | some p => do
          let g ← load p
          modify fun c => { c with kept := c.kept ++ [(name, g)] }
          return some g

def forget : Work Unit :=
  modify fun c => { c with kept := [] }

/-! ## Listing -/

/-- The grammar files in a directory by name; there are none in a directory that is missing. -/
def grammarFiles (directory : Path) : Work (List Path) := do
  if (← get).files.contains directory then
    let paths ← look fun files => files.children directory
    let isGrammar (p : Path) : Bool := suffixes.contains (Text.lowercase p.suffix)
    return (paths.filter isGrammar).mergeSort fun a b => !(b.name < a.name)
  else return []

/-- The summary of the grammar in a file, or nothing if a listing leaves the file out. -/
def summaryOf (p : Path) : Work (Option Summary) :=
  tryCatch
    (do return some ((← load p).summary p.stem (some p.text)))
    (fun failure => if failure.isSkipped then return none else throw failure)

def summariesIn (directory : Path) : Work (List Summary) := do
  return ((← (← grammarFiles directory).mapM summaryOf)).filterMap id

def addSummary (summaries : List Summary) (s : Summary) : List Summary :=
  if summaries.any fun t => t.name == s.name then
    summaries.map fun t => if t.name == s.name then s else t
  else summaries ++ [s]

/-- The summaries of all grammars by name.  A file replaces those of the same name that were
met before it. -/
def list : Work (List Summary) := do
  let c ← get
  let met := (← (c.library :: c.project.toList).mapM summariesIn).flatten
  return (met.foldl addSummary []).mergeSort fun a b => !(b.name < a.name)

/-! ## Writing -/

def save (p : Path) (s : String) : Work Unit := do
  provide p.parent
  change fun files => files.write p (Text.encodeUtf8 s)

def copyToProject (name : String) : Work (Option Path) := do
  let c ← get
  match c.project with
  | none => throw .noProject
  | some project =>
      match fileIn? c.files c.library name with
      | none => return none
      | some source => do
          provide project
          let target := project.join source.name
          if (← get).files.contains target then throw (.inProject name)
          let s ← readText source
          change fun files => files.write target (Text.encodeUtf8 s)
          modify fun c => { c with kept := c.kept.filter fun e => e.1 != name }
          return some target

/-- The format a value asks for; one whose test fails leaves it to the path. -/
def formatFor (given : Value) (p : Path) : Work Format :=
  if given.isTruthy then
    match Format.ofValue given with
    | .ok format => return format
    | .error e => throw (.format e)
  else return p.format

def render (g : Grammar) (format : Format) : Work Rendering :=
  match g.render format with
  | .ok r => return r
  | .error d => throw (.dangling d)

/-- Renders a grammar and writes it to a file; nothing is written unless it can be rendered. -/
def write (g : Grammar) (p : Path) (given : Value) : Work Rendering := do
  let rendering ← render g (← formatFor given p)
  save p rendering.text
  return rendering

def writeDraft (g : Value) (p : Path) (given : Value) : Work Rendering := do
  match Draft.render (← formatFor given p) g with
  | .ok rendering => do
      save p rendering.text
      return rendering
  | .error fault => throw (.draft fault)

end Catalog
end TextMate
