import TextMate.Yaml.Cursor

/-!
# Moving over known text

Where a cursor stands in front of known text, the cursor behind that text is
known: what is left, how far the index has moved, and, as long as no line ends,
line and column.
-/

namespace TextMate
namespace Yaml

theorem isBreak_of_isSpaceOrEnd {c : Char} (h : isSpaceOrEnd c = false) : isBreak c = false := by
  simp only [isSpaceOrEnd, isBlankOrEnd, isBreakOrEnd, Bool.or_eq_false_iff] at h
  exact h.2.2.1

theorem ne_blank_of_isSpaceOrEnd {c : Char} (h : isSpaceOrEnd c = false) : c ≠ ' ' := by
  rintro rfl
  cases h

theorem ne_tab_of_isSpaceOrEnd {c : Char} (h : isSpaceOrEnd c = false) : c ≠ '\t' := by
  rintro rfl
  cases h

theorem ne_endMark_of_isSpaceOrEnd {c : Char} (h : isSpaceOrEnd c = false) : c ≠ endMark := by
  rintro rfl
  cases h

namespace Cursor

@[simp] theorem skip_zero (c : Cursor) : c.skip 0 = c := rfl

theorem skip_succ (n : Nat) (c : Cursor) : c.skip (n + 1) = c.next.skip n := rfl

theorem skip_one (c : Cursor) : c.skip 1 = c.next := rfl

theorem skip_skip (m n : Nat) (c : Cursor) : (c.skip m).skip n = c.skip (m + n) := by
  induction m generalizing c with
  | zero => rw [skip_zero, Nat.zero_add]
  | succ m ih => rw [Nat.succ_add, skip_succ, skip_succ, ih]

theorem rest_next (c : Cursor) : c.next.rest = c.rest.drop 1 := by
  unfold next
  cases hc : c.rest with
  | nil => exact hc
  | cons ch rest => rfl

@[simp] theorem rest_skip (n : Nat) (c : Cursor) : (c.skip n).rest = c.rest.drop n := by
  induction n generalizing c with
  | zero => rfl
  | succ n ih => rw [skip_succ, ih, rest_next, List.drop_drop, Nat.add_comm]

theorem rest_skip_append {c : Cursor} {cs rest : List Char} (h : c.rest = cs ++ rest) :
    (c.skip cs.length).rest = rest := by
  rw [rest_skip, h, List.drop_left]

theorem peek_cons {c : Cursor} {ch : Char} {rest : List Char} (h : c.rest = ch :: rest) :
    c.peek = ch := by
  rw [peek, h, List.headD_cons]

theorem rest_next_cons {c : Cursor} {ch : Char} {rest : List Char} (h : c.rest = ch :: rest) :
    c.next.rest = rest := by
  rw [rest_next, h, List.drop_one, List.tail_cons]

theorem line_le_next (c : Cursor) : c.mark.line ≤ c.next.mark.line := by
  unfold next
  cases c.rest with
  | nil => exact Nat.le_refl _
  | cons ch rest =>
      dsimp only
      split
      · exact Nat.le_succ _
      · exact Nat.le_refl _

theorem line_le_skip (n : Nat) (c : Cursor) : c.mark.line ≤ (c.skip n).mark.line := by
  induction n generalizing c with
  | zero => exact Nat.le_refl _
  | succ n ih => exact Nat.le_trans (line_le_next c) (ih c.next)

/-!
## Within a line
-/

def TakesColumn (ch : Char) : Prop :=
  isBreak ch = false ∧ ch.toNat ≠ 0xFEFF

theorem mark_next_of_takesColumn {c : Cursor} {ch : Char} {rest : List Char}
    (hc : c.rest = ch :: rest) (h : TakesColumn ch) :
    c.next.mark = ⟨c.mark.index + 1, c.mark.line, c.mark.column + 1⟩ := by
  unfold next
  rw [hc]
  simp [h.1, h.2]

theorem mark_skip_of_takesColumn {cs rest : List Char} (h : ∀ ch ∈ cs, TakesColumn ch)
    {c : Cursor} (hc : c.rest = cs ++ rest) :
    (c.skip cs.length).mark =
      ⟨c.mark.index + cs.length, c.mark.line, c.mark.column + cs.length⟩ := by
  induction cs generalizing c with
  | nil => rfl
  | cons ch cs ih =>
      have hnext := mark_next_of_takesColumn hc (h ch List.mem_cons_self)
      have hrest : c.next.rest = cs ++ rest := rest_next_cons hc
      rw [List.length_cons, skip_succ,
        ih (fun d hd => h d (List.mem_cons_of_mem _ hd)) hrest, hnext]
      simp only [Mark.mk.injEq]
      exact ⟨by omega, trivial, by omega⟩

theorem takesColumn_blank : TakesColumn ' ' := by
  constructor <;> decide

theorem takesColumn_of_mem_replicate {n : Nat} {ch : Char} (h : ch ∈ List.replicate n ' ') :
    TakesColumn ch := by
  rw [List.eq_of_mem_replicate h]
  exact takesColumn_blank

/-!
## Line ends
-/

theorem mark_next_lineFeed {c : Cursor} {rest : List Char} (hc : c.rest = '\n' :: rest) :
    c.next.mark = ⟨c.mark.index + 1, c.mark.line + 1, 0⟩ := by
  unfold next
  rw [hc]
  rfl

theorem lineBreak_lineFeed {c : Cursor} {rest : List Char} (hc : c.rest = '\n' :: rest) :
    c.lineBreak = (['\n'], c.next) := by
  unfold lineBreak
  rw [peek_cons hc]
  rfl

theorem mark_skip_newLine {c : Cursor} {n : Nat} {rest : List Char}
    (hc : c.rest = '\n' :: (List.replicate n ' ' ++ rest)) :
    (c.skip (n + 1)).mark = ⟨c.mark.index + 1 + n, c.mark.line + 1, n⟩ := by
  have hnext := mark_next_lineFeed hc
  have hrest : c.next.rest = List.replicate n ' ' ++ rest := rest_next_cons hc
  have h := mark_skip_of_takesColumn (fun _ => takesColumn_of_mem_replicate) hrest
  rw [List.length_replicate] at h
  rw [skip_succ, h, hnext]
  simp

theorem atDocumentBorder_eq_false {c : Cursor} (hdash : c.peek ≠ '-') (hpoint : c.peek ≠ '.') :
    c.atDocumentBorder = false := by
  rw [atDocumentBorder, atMarker, atMarker, beq_false_of_ne hdash, beq_false_of_ne hpoint]
  rfl

theorem atDocumentBorder_blanks {c : Cursor} {n : Nat} {rest : List Char}
    (hc : c.rest = List.replicate n ' ' ++ rest) (hn : 0 < n) : c.atDocumentBorder = false := by
  cases n with
  | zero => cases hn
  | succ n =>
      have hpeek : c.peek = ' ' := peek_cons hc
      apply atDocumentBorder_eq_false <;> rw [hpeek] <;> decide

/-- A text that goes on with a token: there is no space, comment, mark or border of a document in
front.  The end of the text is such a place. -/
structure StartsToken (rest : List Char) : Prop where
  ne_blank : rest.headD endMark ≠ ' '
  not_break : isBreak (rest.headD endMark) = false
  ne_sharp : rest.headD endMark ≠ '#'
  ne_mark : (rest.headD endMark).toNat ≠ 0xFEFF
  not_dashes : ∀ more, rest ≠ '-' :: '-' :: '-' :: more
  not_points : ∀ more, rest ≠ '.' :: '.' :: '.' :: more

theorem startsToken_nil : StartsToken [] where
  ne_blank := by decide
  not_break := by decide
  ne_sharp := by decide
  ne_mark := by decide
  not_dashes := fun _ h => nomatch h
  not_points := fun _ h => nomatch h

theorem startsToken_cons {c : Char} {rest : List Char} (hspace : isSpaceOrEnd c = false)
    (hsharp : c ≠ '#') (hmark : c.toNat ≠ 0xFEFF)
    (hdash : c = '-' → rest.headD endMark ≠ '-') (hpoint : c ≠ '.') : StartsToken (c :: rest) where
  ne_blank := ne_blank_of_isSpaceOrEnd hspace
  not_break := isBreak_of_isSpaceOrEnd hspace
  ne_sharp := hsharp
  ne_mark := hmark
  not_dashes := by
    rintro more ⟨⟩
    exact hdash rfl rfl
  not_points := by
    rintro more ⟨⟩
    exact hpoint rfl

theorem atMarker_eq_false {c : Cursor} {marker : Char} (hmarker : marker ≠ endMark)
    (h : ∀ more, c.rest ≠ marker :: marker :: marker :: more) : c.atMarker marker = false := by
  rw [Bool.eq_false_iff]
  intro hall
  rw [atMarker, peek, peekAt, peekAt] at hall
  rcases hc : c.rest with _ | ⟨a, _ | ⟨b, _ | ⟨d, more⟩⟩⟩
  · simp [hc, Ne.symm hmarker] at hall
  · simp [hc, Ne.symm hmarker] at hall
  · simp [hc, Ne.symm hmarker] at hall
  · simp only [hc, List.headD_cons, List.getD_cons_succ, List.getD_cons_zero, Bool.and_eq_true,
      beq_iff_eq] at hall
    rcases hall with ⟨⟨⟨rfl, rfl⟩, rfl⟩, _⟩
    exact h more hc

theorem StartsToken.atDocumentBorder {c : Cursor} {n : Nat} {rest : List Char}
    (h : StartsToken rest) (hc : c.rest = List.replicate n ' ' ++ rest) :
    c.atDocumentBorder = false := by
  cases n with
  | zero =>
      rw [List.replicate_zero, List.nil_append] at hc
      have hdash := @atMarker_eq_false c '-' (by decide) (hc ▸ h.not_dashes)
      have hpoint := @atMarker_eq_false c '.' (by decide) (hc ▸ h.not_points)
      rw [Cursor.atDocumentBorder, hdash, hpoint]
      rfl
  | succ n => exact atDocumentBorder_blanks hc (Nat.succ_pos n)

/-!
## Runs of characters
-/

theorem takeWhile_append {p : Char → Bool} {cs rest : List Char} {c : Cursor}
    (hc : c.rest = cs ++ rest) (hcs : ∀ ch ∈ cs, p ch = true)
    (hrest : ∀ ch ∈ rest.head?, p ch = false) :
    c.takeWhile p = (cs, c.skip cs.length) := by
  have htake : c.rest.takeWhile p = cs := by
    rw [hc, List.takeWhile_append_of_pos hcs]
    cases rest with
    | nil => rw [List.takeWhile_nil, List.append_nil]
    | cons d rest =>
        have hd : p d = false := hrest d rfl
        rw [List.takeWhile_cons, hd]
        simp
  rw [takeWhile, htake]

theorem skipWhile_append {p : Char → Bool} {cs rest : List Char} {c : Cursor}
    (hc : c.rest = cs ++ rest) (hcs : ∀ ch ∈ cs, p ch = true)
    (hrest : ∀ ch ∈ rest.head?, p ch = false) :
    c.skipWhile p = c.skip cs.length := by
  rw [skipWhile, takeWhile_append hc hcs hrest]

theorem skipBlanks_replicate {n : Nat} {rest : List Char} {c : Cursor}
    (hc : c.rest = List.replicate n ' ' ++ rest) (hrest : ∀ ch ∈ rest.head?, ch ≠ ' ') :
    c.skipBlanks = c.skip n := by
  have h := @skipWhile_append (· == ' ') _ rest c hc
    (fun ch hch => by rw [List.eq_of_mem_replicate hch]; rfl)
    (fun ch hch => beq_false_of_ne (hrest ch hch))
  rwa [List.length_replicate] at h

theorem StartsToken.head_ne_blank {rest : List Char} (h : StartsToken rest) :
    ∀ ch ∈ rest.head?, ch ≠ ' ' := by
  cases rest with
  | nil =>
      rintro ch ⟨⟩
  | cons c rest =>
      rintro ch ⟨⟩
      exact h.ne_blank

theorem peek_skip {c : Cursor} {n : Nat} {rest : List Char} (h : (c.skip n).rest = rest) :
    (c.skip n).peek = rest.headD endMark := by
  rw [peek, h]

end Cursor
end Yaml
end TextMate
