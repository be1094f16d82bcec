import TextMate.Grammar.Basic

/-!
# Targets of references

A target that begins with `#` names an entry of the repository, and `$self` the
grammar itself.  Authors mark another grammar by an exclamation mark, which
editors do not expect; it is taken away when a document is made, and of several
marks only the first.
-/

namespace TextMate

inductive TargetKind where
  | repository
  | external
  | self
  | other
  deriving DecidableEq, Repr

namespace Include

def kind (target : String) : TargetKind :=
  match target.toList with
  | '#' :: _ => .repository
  | '!' :: _ => .external
  | _ => if target == "$self" then .self else .other

def name (target : String) : String :=
  match target.toList with
  | '#' :: rest => String.ofList rest
  | '!' :: rest => String.ofList rest
  | _ => target

def isMarked (target : String) : Bool :=
  target.toList.head? == some '!'

def unmark (target : String) : String :=
  match target.toList with
  | '!' :: rest => String.ofList rest
  | _ => target

def entryName? (target : String) : Option String :=
  match target.toList with
  | '#' :: rest => some (String.ofList rest)
  | _ => none

theorem unmark_eq_self {target : String} (h : isMarked target = false) :
    unmark target = target := by
  unfold isMarked at h
  unfold unmark
  split
  · rename_i hl
    simp [hl] at h
  · rfl

theorem entryName?_eq_some_iff {target name : String} :
    entryName? target = some name ↔ target = "#" ++ name := by
  rw [← String.toList_inj]
  unfold entryName?
  split
  · rename_i rest hl
    rw [hl, Option.some.injEq, ← String.toList_inj]
    simp
  · rename_i hn
    constructor
    · intro h
      cases h
    · intro h
      exact absurd (by simpa using h) (hn name.toList)

theorem entryName?_entry (name : String) : entryName? ("#" ++ name) = some name :=
  entryName?_eq_some_iff.mpr rfl

theorem unmark_mark (target : String) : unmark ("!" ++ target) = target := by
  simp [unmark]

theorem unmark_entry (name : String) : unmark ("#" ++ name) = "#" ++ name := by
  simp [unmark]

theorem eq_or_eq_mark_of_unmark {target rest : String} (h : unmark target = rest) :
    target = rest ∨ target = "!" ++ rest := by
  unfold unmark at h
  split at h
  · rename_i hl
    refine Or.inr ?_
    rw [← h, ← String.toList_inj, hl]
    simp
  · exact Or.inl h

end Include
end TextMate
