import TextMate.Text.Lowercase
import TextMate.Grammar.Format

/-!
# Paths

A path is a base and the names that lead on from it.  Its text has one slash
between names and no names `.`; a name `..` stays, for what it means depends on
the files.  The suffix of a name begins at its last point, unless the point comes
first or last.
-/

namespace TextMate
namespace Files

/-- Where a path begins: at the working directory, at the root, or at the grammars that
come with the program. -/
inductive Base where
  | here
  | root
  | packaged
  deriving DecidableEq, Repr

structure Path where
  base : Base
  names : List String
  deriving DecidableEq, Repr

namespace Path

def namesOf (s : String) : List String :=
  ((s.toList.splitOn '/').map String.ofList).filter fun name => !(name.isEmpty || name == ".")

def ofText (s : String) : Path :=
  ⟨if s.toList.head? == some '/' then .root else .here, namesOf s⟩

def text (p : Path) : String :=
  match p.base with
  | .here => if p.names.isEmpty then "." else "/".intercalate p.names
  | .root => "/" ++ "/".intercalate p.names
  | .packaged => "/".intercalate ("<packaged>" :: p.names)

/-- The path of something under a directory; a text that begins at the root leads there. -/
def join (p : Path) (s : String) : Path :=
  match (ofText s).base with
  | .here => { p with names := p.names ++ namesOf s }
  | _ => ofText s

def parent (p : Path) : Path :=
  { p with names := p.names.dropLast }

def name (p : Path) : String :=
  p.names.getLast?.getD ""

def splitSuffix (cs : List Char) : List Char × List Char :=
  let extension := (cs.reverse.takeWhile (· != '.')).reverse
  let stem := cs.take (cs.length - extension.length - 1)
  if stem.isEmpty || extension.isEmpty then (cs, []) else (stem, '.' :: extension)

theorem splitSuffix_append (cs : List Char) :
    (splitSuffix cs).1 ++ (splitSuffix cs).2 = cs := by
  simp only [splitSuffix]
  split
  · simp
  · rename_i h
    simp only [Bool.or_eq_true, List.isEmpty_iff, not_or] at h
    generalize he : (cs.reverse.takeWhile (· != '.')).reverse = extension at h ⊢
    have hsplit : cs = (cs.reverse.dropWhile (· != '.')).reverse ++ extension := by
      rw [← he, ← List.reverse_append, List.takeWhile_append_dropWhile, List.reverse_reverse]
    generalize hb : cs.reverse.dropWhile (· != '.') = before at hsplit
    cases before with
    | nil =>
        simp only [List.reverse_nil, List.nil_append] at hsplit
        simp [← hsplit] at h
    | cons c rest =>
        have hc : c = '.' := by
          have := List.head_dropWhile_not (p := (· != '.')) (l := cs.reverse) (by simp [hb])
          simpa [hb] using this
        subst hc
        have hlen : cs.length - extension.length - 1 = rest.length := by
          rw [hsplit]
          simp only [List.length_append, List.length_reverse, List.length_cons]
          omega
        rw [hlen, hsplit]
        simp

def stem (p : Path) : String :=
  String.ofList (splitSuffix p.name.toList).1

def suffix (p : Path) : String :=
  String.ofList (splitSuffix p.name.toList).2

/-- The format that the suffix announces: JSON, or else YAML. -/
def format (p : Path) : Format :=
  if Text.lowercase p.suffix == ".json" then .json else .yaml

end Path
end Files
end TextMate
