import TextMate.Yaml.Pen

/-!
# What a pen writes

A pen only adds to what has been written.  Going to an indentation ends the line
unless nothing but indentation and signs stands on it; there are three cases,
and the lemmas below name what is written in each of them.

Texts are written run by run.  The runs of a text are not empty, the characters
of a run are of one kind, and neighbouring runs are of different kinds.
-/

namespace TextMate
namespace Yaml

/-!
## Characters that need no escape
-/

theorem isSpaceOrEnd_eq_false {c : Char} (hblank : c ≠ ' ') (hkept : isKeptBreak c = false)
    (hescape : needsEscape c = false) : isSpaceOrEnd c = false := by
  simp only [isSpaceOrEnd, isBlankOrEnd, isBreakOrEnd, isBreak, isKeptBreak, needsEscape,
    endMark, Bool.or_eq_false_iff, Bool.not_eq_false', Bool.or_eq_true, Bool.and_eq_true,
    beq_eq_false_iff_ne, beq_iff_eq, decide_eq_true_eq, bne_iff_ne] at *
  rcases hkept with ⟨⟨⟨hfeed, hnext⟩, hline⟩, hparagraph⟩
  have htab : c ≠ '\t' := by
    rintro rfl
    revert hescape
    decide
  have hreturn : c ≠ '\r' := by
    rintro rfl
    revert hescape
    decide
  have hend : c ≠ Char.ofNat 0 := by
    rintro rfl
    revert hescape
    decide
  exact ⟨htab, hblank, ⟨⟨⟨⟨hfeed, hreturn⟩, hnext⟩, hline⟩, hparagraph⟩, hend⟩

namespace Pen

/-!
## Indentation
-/

@[simp] theorem written_put (p : Pen) (cs : List Char) :
    (p.put cs).written = cs.reverse ++ p.written := rfl

@[simp] theorem column_put (p : Pen) (cs : List Char) :
    (p.put cs).column = p.column + cs.length := rfl

@[simp] theorem inIndent_put (p : Pen) (cs : List Char) : (p.put cs).inIndent = p.inIndent := rfl

@[simp] theorem afterSpace_put (p : Pen) (cs : List Char) :
    (p.put cs).afterSpace = p.afterSpace := rfl

@[simp] theorem written_inScalar (p : Pen) : p.inScalar.written = p.written := rfl

@[simp] theorem column_inScalar (p : Pen) : p.inScalar.column = p.column := rfl

def lineStart (indent : Nat) : List Char :=
  '\n' :: List.replicate indent ' '

@[simp] theorem length_lineStart (indent : Nat) : (lineStart indent).length = indent + 1 := by
  rw [lineStart, List.length_cons, List.length_replicate]

theorem indentTo_newLine {p : Pen} {indent : Nat}
    (h : p.inIndent = false ∨ indent < p.column) :
    p.indentTo indent = ⟨(lineStart indent).reverse ++ p.written, indent, true, true⟩ := by
  have hbreak : (!p.inIndent || decide (indent < p.column)
      || p.column == indent && !p.afterSpace) = true := by
    rcases h with h | h <;> simp [h]
  unfold indentTo
  rw [hbreak, if_pos rfl]
  cases indent with
  | zero => rfl
  | succ n => simp [newLine, breakWith, lineStart, put]

theorem indentTo_blanks {p : Pen} {indent : Nat} (hindent : p.inIndent = true)
    (h : p.column < indent) :
    p.indentTo indent =
      ⟨List.replicate (indent - p.column) ' ' ++ p.written, indent, true, true⟩ := by
  have hbreak : (!p.inIndent || decide (indent < p.column)
      || p.column == indent && !p.afterSpace) = false := by
    have hlt : ¬ indent < p.column := by omega
    have hne : (p.column == indent) = false := beq_false_of_ne (by omega)
    simp [hindent, hlt, hne]
  unfold indentTo
  rw [hbreak, if_neg Bool.false_ne_true, if_pos h]
  simp only [put, List.reverse_replicate, List.length_replicate, hindent]
  rw [Nat.add_sub_cancel' (Nat.le_of_lt h)]

/-!
## Runs
-/

section Runs

variable {κ : Type} [DecidableEq κ] {key : Char → κ}

def IsRuns (key : Char → κ) : List (κ × List Char) → Prop
  | [] => True
  | (k, run) :: rest =>
      run ≠ [] ∧ (∀ c ∈ run, key c = k) ∧ (∀ r ∈ rest.head?, r.1 ≠ k) ∧ IsRuns key rest

theorem runs_cons (key : Char → κ) (c : Char) (rest : List Char) :
    (∃ run more, runs key rest = (key c, run) :: more
        ∧ runs key (c :: rest) = (key c, c :: run) :: more)
      ∨ ((∀ r ∈ (runs key rest).head?, r.1 ≠ key c)
        ∧ runs key (c :: rest) = (key c, [c]) :: runs key rest) := by
  cases hruns : runs key rest with
  | nil =>
      refine Or.inr ⟨?_, ?_⟩
      · rintro r ⟨⟩
      · simp only [runs, hruns]
  | cons r more =>
      rcases r with ⟨k, run⟩
      by_cases hk : key c = k
      · refine Or.inl ⟨run, more, by rw [hk], ?_⟩
        simp only [runs, hruns]
        rw [if_pos hk, hk]
      · refine Or.inr ⟨?_, ?_⟩
        · intro r hr
          cases hr
          exact fun h => hk h.symm
        · simp only [runs, hruns]
          rw [if_neg hk]

theorem isRuns_runs (key : Char → κ) (cs : List Char) : IsRuns key (runs key cs) := by
  induction cs with
  | nil => trivial
  | cons c cs ih =>
      rcases runs_cons key c cs with ⟨run, more, hrest, hruns⟩ | ⟨hhead, hruns⟩
      · rw [hrest] at ih
        rw [hruns]
        refine ⟨List.cons_ne_nil _ _, ?_, ih.2.2.1, ih.2.2.2⟩
        intro d hd
        rcases List.mem_cons.mp hd with rfl | hd
        · rfl
        · exact ih.2.1 d hd
      · rw [hruns]
        refine ⟨List.cons_ne_nil _ _, ?_, hhead, ih⟩
        intro d hd
        rw [List.mem_singleton.mp hd]

omit [DecidableEq κ] in
theorem IsRuns.of_mem {rs : List (κ × List Char)} (h : IsRuns key rs) :
    ∀ r ∈ rs, r.2 ≠ [] ∧ ∀ c ∈ r.2, key c = r.1 := by
  induction rs with
  | nil =>
      rintro r ⟨⟩
  | cons r rest ih =>
      intro r' hr'
      rcases List.mem_cons.mp hr' with rfl | hr'
      · exact ⟨h.1, h.2.1⟩
      · exact ih h.2.2.2 r' hr'

omit [DecidableEq κ] in
theorem flatMap_ne_nil_of_isRuns {rs : List (κ × List Char)} (h : IsRuns key rs)
    (hne : rs ≠ []) : rs.flatMap (·.2) ≠ [] := by
  cases rs with
  | nil => exact absurd rfl hne
  | cons r rest =>
      rw [List.flatMap_cons]
      exact List.append_ne_nil_of_left_ne_nil h.1 _

theorem flatMap_runs (key : Char → κ) (cs : List Char) : (runs key cs).flatMap (·.2) = cs := by
  induction cs with
  | nil => rfl
  | cons c cs ih =>
      rcases runs_cons key c cs with ⟨run, more, hrest, hruns⟩ | ⟨_, hruns⟩
      · rw [hrest, List.flatMap_cons] at ih
        rw [hruns, List.flatMap_cons, List.cons_append]
        exact congrArg (List.cons c) ih
      · rw [hruns, List.flatMap_cons, ih]
        rfl

end Runs

theorem Piece.of_eq_blanks {c : Char} (h : Piece.of c = .blanks) : c = ' ' := by
  rw [Piece.of] at h
  split at h
  · exact beq_iff_eq.mp ‹_›
  · split at h <;> cases h

theorem Piece.of_eq_breaks {c : Char} (h : Piece.of c = .breaks) : isKeptBreak c = true := by
  rw [Piece.of] at h
  split at h
  · cases h
  · split at h
    · assumption
    · cases h

theorem Piece.of_eq_word {c : Char} (h : Piece.of c = .word) :
    c ≠ ' ' ∧ isKeptBreak c = false := by
  rw [Piece.of] at h
  split at h
  · cases h
  · split at h
    · cases h
    · exact ⟨by simpa using ‹¬(c == ' ') = true›, Bool.not_eq_true _ ▸ ‹¬isKeptBreak c = true›⟩

theorem Piece.ne_breaks {kind : Piece} {run : List Char} (hne : run ≠ [])
    (hkinds : ∀ c ∈ run, Piece.of c = kind) (hkept : ∀ c ∈ run, isKeptBreak c = false) :
    kind ≠ .breaks := by
  rintro rfl
  rcases List.exists_mem_of_ne_nil _ hne with ⟨c, hc⟩
  have h := Piece.of_eq_breaks (hkinds c hc)
  rw [hkept c hc] at h
  cases h

end Pen
end Yaml
end TextMate
