import TextMate.Proofs.Yaml.Cursor
import TextMate.Proofs.Yaml.Pen
import TextMate.Yaml.Token.Scalar

/-!
# Plain scalars

A text that may be written plain consists of words with blanks between them.
When it is written, single blanks may become line ends with an indentation.  The
scanner takes the text word by word; it turns such a line end back into a blank
and stops where the text does.
-/

namespace TextMate
namespace Yaml

open Pen Cursor

/-!
## Words
-/

structure IsPlainWord (word : List Char) : Prop where
  ne_nil : word ≠ []
  noSpace : ∀ c ∈ word, isSpaceOrEnd c = false
  takesColumn : ∀ c ∈ word, TakesColumn c
  head : word.head? ≠ some '#'
  last : word.getLast? ≠ some ':'

/-- Words with blanks between them. -/
inductive PlainText : List (Piece × List Char) → Prop where
  | last {word : List Char} : IsPlainWord word -> PlainText [(.word, word)]
  | cons {word blanks : List Char} {rest : List (Piece × List Char)} :
      IsPlainWord word -> blanks ≠ [] -> (∀ c ∈ blanks, c = ' ') -> PlainText rest ->
        PlainText ((.word, word) :: (.blanks, blanks) :: rest)

theorem toNat_ne_of_needsEscape {c : Char} (h : needsEscape c = false) : c.toNat ≠ 0xFEFF := by
  intro heq
  have hfeed : (c == '\n') = false := by
    refine beq_false_of_ne ?_
    rintro rfl
    cases heq
  rw [needsEscape, hfeed] at h
  simp only [heq] at h
  revert h
  decide

theorem hasIndicator_append {prev : Char} {xs ys : List Char}
    (h : hasIndicator prev (xs ++ ys) = false) :
    hasIndicator (xs.getLastD prev) ys = false := by
  induction xs generalizing prev with
  | nil => exact h
  | cons x xs ih =>
      rw [List.cons_append, hasIndicator, Bool.or_eq_false_iff] at h
      have hlast : (x :: xs).getLastD prev = xs.getLastD x := by
        cases xs <;> rfl
      rw [hlast]
      exact ih h.2

theorem getLast?_ne_colon {prev : Char} {word rest : List Char}
    (h : hasIndicator prev (word ++ rest) = false) (hrest : isSpaceOrEnd (rest.headD endMark)) :
    word.getLast? ≠ some ':' := by
  intro hlast
  rcases List.getLast?_eq_some_iff.mp hlast with ⟨init, rfl⟩
  rw [List.append_assoc] at h
  have hcolon := hasIndicator_append h
  rw [List.singleton_append, hasIndicator, isIndicatorAfter, hrest] at hcolon
  simp at hcolon

theorem IsPlainWord.of_run {prev : Char} {word rest : List Char} (hne : word ≠ [])
    (hkind : ∀ c ∈ word, Piece.of c = .word) (hescape : ∀ c ∈ word, needsEscape c = false)
    (hhead : word.head? ≠ some '#') (hindicator : hasIndicator prev (word ++ rest) = false)
    (hrest : isSpaceOrEnd (rest.headD endMark)) : IsPlainWord word := by
  have hspace : ∀ c ∈ word, isSpaceOrEnd c = false := by
    intro c hc
    have hof := Piece.of_eq_word (hkind c hc)
    exact isSpaceOrEnd_eq_false hof.1 hof.2 (hescape c hc)
  exact ⟨hne, hspace, fun c hc => ⟨isBreak_of_isSpaceOrEnd (hspace c hc),
    toNat_ne_of_needsEscape (hescape c hc)⟩, hhead, getLast?_ne_colon hindicator hrest⟩

/-- Runs of a text without breaks, signs and blanks at its ends, behind some character. -/
structure PlainRuns (prev : Char) (rs : List (Piece × List Char)) : Prop where
  runs : IsRuns Piece.of rs
  ne_nil : rs ≠ []
  first : ∀ r ∈ rs.head?, r.1 = .word
  chars : ∀ c ∈ rs.flatMap (·.2), isKeptBreak c = false ∧ needsEscape c = false
  last : (rs.flatMap (·.2)).getLast? ≠ some ' '
  head : (rs.flatMap (·.2)).head? ≠ some '#'
  indicator : hasIndicator prev (rs.flatMap (·.2)) = false

namespace PlainRuns

variable {prev : Char} {kind : Piece} {word blanks : List Char} {rs rest : List (Piece × List Char)}

theorem ne_breaks (h : PlainRuns prev rs) : ∀ r ∈ rs, r.1 ≠ .breaks := by
  intro r hr
  have hrun := h.runs.of_mem r hr
  exact Piece.ne_breaks hrun.1 hrun.2 fun c hc => (h.chars c (List.mem_flatMap.mpr ⟨r, hr, hc⟩)).1

theorem isPlainWord (h : PlainRuns prev ((.word, word) :: rest))
    (hrest : isSpaceOrEnd ((rest.flatMap (·.2)).headD endMark)) : IsPlainWord word := by
  have hindicator := h.indicator
  have hhead := h.head
  rw [List.flatMap_cons] at hindicator hhead
  refine .of_run h.runs.1 h.runs.2.1 (fun c hc => (h.chars c ?_).2) ?_ hindicator hrest
  · rw [List.flatMap_cons]
    exact List.mem_append_left _ hc
  · cases word with
    | nil => exact absurd rfl h.runs.1
    | cons c word => exact hhead

theorem second_eq (h : PlainRuns prev ((.word, word) :: (kind, blanks) :: rest)) :
    kind = .blanks := by
  have hbreaks := h.ne_breaks (kind, blanks) (List.mem_cons_of_mem _ List.mem_cons_self)
  cases kind with
  | word => exact absurd rfl (h.runs.2.2.1 _ rfl)
  | blanks => rfl
  | breaks => exact absurd rfl hbreaks

theorem eq_blank (h : PlainRuns prev ((.word, word) :: (.blanks, blanks) :: rest)) :
    ∀ c ∈ blanks, c = ' ' :=
  fun c hc => Piece.of_eq_blanks (h.runs.2.2.2.2.1 c hc)

theorem getLast?_blanks (h : PlainRuns prev ((.word, word) :: (.blanks, blanks) :: rest)) :
    blanks.getLast? = some ' ' := by
  have hblanks : blanks ≠ [] := h.runs.2.2.2.1
  rw [List.getLast?_eq_some_getLast hblanks, h.eq_blank _ (List.getLast_mem hblanks)]

theorem behind (h : PlainRuns prev ((.word, word) :: (.blanks, blanks) :: rest)) :
    PlainRuns ' ' rest := by
  rcases h.runs with ⟨_, _, _, _, _, hnext, hrest⟩
  have hlast := h.last
  have hindicator := h.indicator
  simp only [List.flatMap_cons] at hlast hindicator
  have hne : rest ≠ [] := by
    rintro rfl
    apply hlast
    rw [List.flatMap_nil, List.append_nil, List.getLast?_append, h.getLast?_blanks]
    rfl
  have hafter := hasIndicator_append (hasIndicator_append hindicator)
  rw [List.getLastD_eq_getLast?, h.getLast?_blanks, Option.getD_some] at hafter
  constructor
  · exact hrest
  · exact hne
  · intro r hr
    have hbreaks := h.ne_breaks r
      (List.mem_cons_of_mem _ (List.mem_cons_of_mem _ (List.mem_of_mem_head? hr)))
    have hblanks := hnext r hr
    cases hkind : r.1 with
    | word => rfl
    | blanks => exact absurd hkind hblanks
    | breaks => exact absurd hkind hbreaks
  · intro c hc
    apply h.chars
    simp only [List.flatMap_cons]
    exact List.mem_append_right _ (List.mem_append_right _ hc)
  · have htext : rest.flatMap (·.2) ≠ [] := flatMap_ne_nil_of_isRuns hrest hne
    rw [← List.append_assoc, List.getLast?_append, List.getLast?_eq_some_getLast htext] at hlast
    rw [List.getLast?_eq_some_getLast htext]
    exact hlast
  · intro hsharp
    rcases List.head?_eq_some_iff.mp hsharp with ⟨text, htext⟩
    rw [htext] at hafter
    cases hafter
  · exact hafter

end PlainRuns

theorem PlainRuns.plainText : ∀ {rs : List (Piece × List Char)} {prev : Char},
    PlainRuns prev rs → PlainText rs
  | [], _, h => absurd rfl h.ne_nil
  | [(kind, word)], _, h => by
      obtain rfl : kind = .word := h.first _ rfl
      exact .last (h.isPlainWord rfl)
  | (kind, word) :: (kind', blanks) :: rest, _, h => by
      obtain rfl : kind = .word := h.first _ rfl
      obtain rfl : kind' = .blanks := h.second_eq
      have hblanks : blanks ≠ [] := h.runs.2.2.2.1
      have hstop : isSpaceOrEnd
          ((((Piece.blanks, blanks) :: rest).flatMap (·.2)).headD endMark) := by
        rw [List.flatMap_cons]
        cases blanks with
        | nil => exact absurd rfl hblanks
        | cons b blanks =>
            rw [h.eq_blank b List.mem_cons_self]
            rfl
      exact .cons (h.isPlainWord hstop) hblanks h.eq_blank h.behind.plainText

theorem plainText_runs {cs : List Char} (hne : cs ≠ []) (h : Style.allowsPlain cs = true) :
    PlainText (runs Piece.of cs) := by
  cases cs with
  | nil => exact absurd rfl hne
  | cons c rest =>
      simp only [Style.allowsPlain, Bool.not_eq_true', Bool.or_eq_false_iff, hasSpaceAtEnd,
        List.head?_cons, Option.map_some, Option.getD_some] at h
      rcases h with ⟨⟨⟨⟨⟨_, hstart⟩, hindicator⟩, ⟨hblank, hkept⟩, hlast⟩, hkepts⟩, hescapes⟩
      rw [List.any_eq_false] at hkepts hescapes
      have hkind : Piece.of c = .word := by
        rw [Piece.of, hblank, hkept]
        rfl
      rw [startsIndicator, Bool.or_eq_false_iff] at hstart
      have hsharp : c ≠ '#' := by
        rintro rfl
        cases hstart.1
      have hcolon : (c == ':' && isSpaceOrEnd (rest.headD endMark)) = false := by
        cases hc : c == ':' with
        | false => rfl
        | true =>
            rw [hc] at hstart
            simpa using hstart.2
      refine @PlainRuns.plainText _ endMark ⟨isRuns_runs _ _, ?_, ?_, ?_, ?_, ?_, ?_⟩
      · intro hnil
        have htext := flatMap_runs Piece.of (c :: rest)
        rw [hnil] at htext
        cases htext
      · intro r hr
        rcases runs_cons Piece.of c rest with ⟨run, more, _, hruns⟩ | ⟨_, hruns⟩
        all_goals
          rw [hruns] at hr
          cases hr
          exact hkind
      · rw [flatMap_runs]
        exact fun d hd => ⟨Bool.not_eq_true _ ▸ hkepts d hd, Bool.not_eq_true _ ▸ hescapes d hd⟩
      · rw [flatMap_runs]
        intro hblanks
        rw [hblanks] at hlast
        cases hlast
      · rw [flatMap_runs, List.head?_cons]
        exact fun heq => hsharp (Option.some.inj heq)
      · rw [flatMap_runs, hasIndicator, isIndicatorAfter, hcolon, hindicator,
          beq_false_of_ne hsharp]
        rfl

/-!
## Writing
-/

/-- The forms of words with blanks between them: a single blank may be the end of a line. -/
inductive PlainForm (indent : Nat) : List (Piece × List Char) → List Char → Prop where
  | last {word : List Char} : IsPlainWord word -> PlainForm indent [(.word, word)] word
  | blanks {word blanks form : List Char} {rest : List (Piece × List Char)} :
      IsPlainWord word -> blanks ≠ [] -> (∀ c ∈ blanks, c = ' ') -> PlainForm indent rest form ->
        PlainForm indent ((.word, word) :: (.blanks, blanks) :: rest) (word ++ (blanks ++ form))
  | folded {word form : List Char} {rest : List (Piece × List Char)} :
      IsPlainWord word -> PlainForm indent rest form ->
        PlainForm indent ((.word, word) :: (.blanks, [' ']) :: rest)
          (word ++ (lineStart indent ++ form))

theorem PlainForm.exists_cons {indent : Nat} {rs : List (Piece × List Char)} {form : List Char}
    (h : PlainForm indent rs form) :
    ∃ c rest, form = c :: rest ∧ isSpaceOrEnd c = false ∧ c ≠ '#' := by
  have hword : ∀ {word : List Char} (more : List Char), IsPlainWord word →
      ∃ c rest, word ++ more = c :: rest ∧ isSpaceOrEnd c = false ∧ c ≠ '#' := by
    intro word more hword
    cases word with
    | nil => exact absurd rfl hword.ne_nil
    | cons c word =>
        exact ⟨c, word ++ more, rfl, hword.noSpace c List.mem_cons_self,
          fun heq => hword.head (congrArg some heq)⟩
  cases h with
  | last h => simpa using hword [] h
  | blanks h => exact hword _ h
  | folded h => exact hword _ h

theorem plainPieces_written {rs : List (Piece × List Char)} (h : PlainText rs) (split : Bool)
    (indent : Nat) {p : Pen} (hp : p.inIndent = false) (hspace : p.afterSpace = false) :
    ∃ form, PlainForm indent rs form
      ∧ (plainPieces split indent rs p).written = form.reverse ++ p.written
      ∧ (plainPieces split indent rs p).inIndent = false
      ∧ (plainPieces split indent rs p).afterSpace = false
      ∧ (split = false → form = rs.flatMap (·.2)
        ∧ (plainPieces split indent rs p).column = p.column + form.length) := by
  induction h generalizing p with
  | last hword =>
      refine ⟨_, .last hword, rfl, hp, hspace, fun _ => ⟨?_, rfl⟩⟩
      simp
  | @cons word blanks rest hword hne hblanks hrest ih =>
      have hstep : plainPieces split indent ((.word, word) :: (.blanks, blanks) :: rest) p =
          plainPieces split indent ((.blanks, blanks) :: rest) (p.put word) := rfl
      rw [hstep, plainPieces]
      split
      case isTrue hfold =>
        simp only [Bool.and_eq_true, beq_iff_eq] at hfold
        rcases List.length_eq_one_iff.mp hfold.1.1.2 with ⟨b, rfl⟩
        obtain rfl : b = ' ' := hblanks b List.mem_cons_self
        rw [indentTo_newLine (p := p.put word) (Or.inl hp)]
        rcases ih (p := Pen.inScalar ⟨_, indent, true, true⟩) rfl rfl with
          ⟨form, hform, hwritten, hindent, hafter, _⟩
        refine ⟨_, .folded hword hform, ?_, hindent, hafter, ?_⟩
        · rw [hwritten]
          simp
        · intro hsplit
          rw [hsplit] at hfold
          exact absurd hfold.1.2 Bool.false_ne_true
      case isFalse hfold =>
        rcases ih (p := (p.put word).put blanks) hp hspace with
          ⟨form, hform, hwritten, hindent, hafter, hline⟩
        refine ⟨_, .blanks hword hne hblanks hform, ?_, hindent, hafter, ?_⟩
        · rw [hwritten]
          simp
        · intro hsplit
          rcases hline hsplit with ⟨rfl, hcolumn⟩
          refine ⟨by simp, ?_⟩
          rw [hcolumn]
          simp only [column_put, List.length_append]
          omega

/-!
## Scanning
-/

theorem plainLength_append {word rest : List Char} (hword : IsPlainWord word)
    (hrest : plainLength false rest = 0) : plainLength false (word ++ rest) = word.length := by
  have hgeneral : ∀ cs : List Char, (∀ c ∈ cs, isSpaceOrEnd c = false) → cs.getLast? ≠ some ':' →
      plainLength false (cs ++ rest) = cs.length := by
    intro cs
    induction cs with
    | nil => exact fun _ _ => hrest
    | cons c cs ih =>
        intro hspace hlast
        have hc := hspace c List.mem_cons_self
        have hcolon : (c == ':' && isSpaceOrEnd ((cs ++ rest).headD endMark)) = false := by
          cases cs with
          | nil =>
              have hne : c ≠ ':' := fun heq => hlast (congrArg some heq)
              rw [beq_false_of_ne hne, Bool.false_and]
          | cons d cs =>
              rw [List.cons_append, List.headD_cons,
                hspace d (List.mem_cons_of_mem _ List.mem_cons_self), Bool.and_false]
        have htail : cs.getLast? ≠ some ':' := by
          cases cs with
          | nil => exact fun h => nomatch h
          | cons d cs => exact hlast
        rw [List.cons_append, plainLength, List.length_cons,
          ih (fun d hd => hspace d (List.mem_cons_of_mem _ hd)) htail]
        simp only [hc, Bool.false_and, Bool.or_false, hcolon, Bool.false_eq_true, if_false]
  exact hgeneral word hword.noSpace hword.last

theorem plainBreaks_blanks {n : Nat} {rest : List Char} {c : Cursor} {fuel : Nat}
    (hrest : c.rest = List.replicate n ' ' ++ rest) (hhead : rest.headD endMark ≠ ' ')
    (hbreak : isBreak (rest.headD endMark) = false) (hfuel : n < fuel) :
    plainBreaks fuel c = (some [], c.skip n) := by
  induction n generalizing c fuel with
  | zero =>
      cases fuel with
      | zero => cases hfuel
      | succ fuel =>
          have hpeek : c.peek = rest.headD endMark := by
            rw [peek, hrest]
            rfl
          rw [plainBreaks, hpeek, if_neg (by simpa using hhead), hbreak]
          rfl
  | succ n ih =>
      cases fuel with
      | zero => cases hfuel
      | succ fuel =>
          have hc : c.rest = ' ' :: (List.replicate n ' ' ++ rest) := hrest
          rw [plainBreaks, peek_cons hc, if_pos (beq_self_eq_true ' '),
            ih (rest_next_cons hc) (by omega), skip_succ]

theorem plainSpaces_newLine {n : Nat} {rest : List Char} {c : Cursor} {fuel : Nat}
    (hrest : c.rest = lineStart n ++ rest) (hhead : rest.headD endMark ≠ ' ')
    (hbreak : isBreak (rest.headD endMark) = false)
    (hborder : c.next.atDocumentBorder = false) (hfuel : n < fuel) :
    plainSpaces fuel c = ([' '], true, c.skip (n + 1)) := by
  have hblanks : c.takeWhile (· == ' ') = ([], c) :=
    @takeWhile_append (· == ' ') [] _ c hrest (by simp) (by simp)
  have hc : c.rest = '\n' :: (List.replicate n ' ' ++ rest) := hrest
  rw [plainSpaces, hblanks]
  dsimp only
  rw [peek_cons hc, lineBreak_lineFeed hc, if_pos (show isBreak '\n' = true from rfl)]
  dsimp only
  rw [hborder, if_neg Bool.false_ne_true,
    plainBreaks_blanks (rest_next_cons hc) hhead hbreak hfuel]
  rfl

/-- Where a plain scalar ends: so many characters behind it are read over, and a line may end
among them. -/
structure PlainStop (indent : Int) (tail : List Char) (n : Nat) (broken : Bool) : Prop where
  length_eq_zero : plainLength false tail = 0
  stops : ∀ {c : Cursor} {fuel : Nat}, c.rest = tail → tail.length < fuel →
    ∃ spaces, plainSpaces fuel c = (spaces, broken, c.skip n)
      ∧ (spaces.isEmpty || (c.skip n).peek == '#'
        || decide (((c.skip n).mark.column : Int) < indent)) = true

theorem plainStop_colon {indent : Int} {rest : List Char}
    (h : isSpaceOrEnd (rest.headD endMark) = true) : PlainStop indent (':' :: rest) 0 false where
  length_eq_zero := by
    rw [plainLength, h]
    rfl
  stops := by
    intro c fuel hc _
    have hblanks : c.takeWhile (· == ' ') = ([], c) :=
      @takeWhile_append (· == ' ') [] _ c hc (by simp) (by simp)
    refine ⟨[], ?_, rfl⟩
    rw [plainSpaces, hblanks]
    simp [peek_cons hc, isBreak]

/-- A plain scalar ends where the next line is not deeper than the surrounding block. -/
theorem plainStop_newLine {indent : Int} {n : Nat} {rest : List Char} (hindent : n < indent)
    (hrest : StartsToken rest) : PlainStop indent (lineStart n ++ rest) (n + 1) true where
  length_eq_zero := by simp [lineStart, plainLength, isSpaceOrEnd, isBlankOrEnd, isBreakOrEnd,
    isBreak]
  stops := by
    intro c fuel hc hfuel
    have hmark := mark_skip_newLine hc
    have hnext : c.next.rest = List.replicate n ' ' ++ rest := rest_next_cons hc
    refine ⟨[' '], ?_, ?_⟩
    · refine plainSpaces_newLine hc hrest.ne_blank hrest.not_break (hrest.atDocumentBorder hnext) ?_
      simp only [List.length_append, length_lineStart] at hfuel
      omega
    · rw [hmark, decide_eq_true hindent, Bool.or_true]

theorem scanPlainPieces_word {word rest : List Char} (hword : IsPlainWord word)
    (hlength : plainLength false rest = 0) {least : Int} {fuel : Nat} {spaces next : List Char}
    {scan : PlainScan} {broken : Bool} {after : Cursor} (hrest : scan.behind.rest = word ++ rest)
    (hspaces : plainSpaces fuel (scan.behind.skip word.length) = (next, broken, after)) :
    scanPlainPieces false least (fuel + 1) spaces scan =
      (if next.isEmpty || after.peek == '#' || decide ((after.mark.column : Int) < least) then
        ⟨scan.text ++ spaces ++ word, (scan.behind.skip word.length).mark, broken, after⟩
      else
        scanPlainPieces false least fuel next
          ⟨scan.text ++ spaces ++ word, (scan.behind.skip word.length).mark, broken, after⟩) := by
  have hpeek : (scan.behind.peek == '#') = false := by
    refine beq_false_of_ne ?_
    have hhead := hword.head
    rw [peek, hrest]
    cases word with
    | nil => exact absurd rfl hword.ne_nil
    | cons c word => exact fun heq => hhead (congrArg some heq)
  have hne : (word.length == 0) = false :=
    beq_false_of_ne fun h => hword.ne_nil (List.eq_nil_of_length_eq_zero h)
  rw [scanPlainPieces, hpeek]
  dsimp only
  rw [if_neg Bool.false_ne_true, hrest, plainLength_append hword hlength, hne,
    if_neg Bool.false_ne_true, hspaces, List.take_left]
  rfl

theorem scanPlainPieces_gap {word rest : List Char} (hword : IsPlainWord word)
    (hlength : plainLength false rest = 0) {least : Int} {fuel : Nat} {spaces next : List Char}
    {scan : PlainScan} {broken : Bool} {after : Cursor} (hrest : scan.behind.rest = word ++ rest)
    (hspaces : plainSpaces fuel (scan.behind.skip word.length) = (next, broken, after))
    (hnext : next ≠ []) (hsharp : after.peek ≠ '#') (hcolumn : least ≤ after.mark.column) :
    scanPlainPieces false least (fuel + 1) spaces scan =
      scanPlainPieces false least fuel next
        ⟨scan.text ++ spaces ++ word, (scan.behind.skip word.length).mark, broken, after⟩ := by
  have hgo : (next.isEmpty || after.peek == '#' || decide ((after.mark.column : Int) < least)) =
      false := by
    rw [List.isEmpty_eq_false_iff.mpr hnext, beq_false_of_ne hsharp,
      decide_eq_false (Int.not_lt.mpr hcolumn)]
    rfl
  rw [scanPlainPieces_word hword hlength hrest hspaces, hgo, if_neg Bool.false_ne_true]

/-- What the scanner takes in front of a tail as some text, reading over `n` characters more. -/
def IsScannedAs (least : Int) (tail : List Char) (n : Nat) (broken : Bool)
    (form cs : List Char) : Prop :=
  ∀ (fuel : Nat) (spaces : List Char) (scan : PlainScan), scan.behind.rest = form ++ tail →
    least ≤ scan.behind.mark.column + 1 → (form ++ tail).length < fuel →
      ∃ stop, scanPlainPieces false least fuel spaces scan =
        ⟨scan.text ++ spaces ++ cs, stop, broken, scan.behind.skip (form.length + n)⟩

namespace IsScannedAs

variable {least : Int} {tail word form cs : List Char} {n indent : Nat} {broken : Bool}
  {rest : List (Piece × List Char)}

theorem last (hword : IsPlainWord word) (hstop : PlainStop least tail n broken) :
    IsScannedAs least tail n broken word word := by
  intro fuel spaces scan hrest _ hfuel
  cases fuel with
  | zero => cases hfuel
  | succ fuel =>
      have hpos := List.length_pos_iff.mpr hword.ne_nil
      rw [List.length_append] at hfuel
      rcases @PlainStop.stops _ _ _ _ hstop _ fuel (rest_skip_append hrest) (by omega) with
        ⟨next, hspaces, hdone⟩
      rw [scanPlainPieces_word hword hstop.length_eq_zero hrest hspaces, hdone, if_pos rfl,
        skip_skip]
      exact ⟨(scan.behind.skip word.length).mark, rfl⟩

theorem blanks {blanks : List Char} (hword : IsPlainWord word) (hne : blanks ≠ [])
    (hblanks : ∀ c ∈ blanks, c = ' ') (hform : PlainForm indent rest form)
    (h : IsScannedAs least tail n broken form cs) :
    IsScannedAs least tail n broken (word ++ (blanks ++ form)) (word ++ (blanks ++ cs)) := by
  intro fuel spaces scan hrest hcolumn hfuel
  cases fuel with
  | zero => cases hfuel
  | succ fuel =>
      have hpos := List.length_pos_iff.mpr hword.ne_nil
      simp only [List.append_assoc] at hrest
      simp only [List.length_append] at hfuel
      have hbehind := rest_skip_append hrest
      have hafter := rest_skip_append hbehind
      rcases hform.exists_cons with ⟨d, more, hd, hspace, hsharp⟩
      have hpeek : ((scan.behind.skip word.length).skip blanks.length).peek = d := by
        rw [peek, hafter, hd]
        rfl
      have hspaces : plainSpaces fuel (scan.behind.skip word.length) =
          (blanks, false, (scan.behind.skip word.length).skip blanks.length) := by
        have htake := @takeWhile_append (· == ' ') blanks _ _ hbehind
          (fun c hc => beq_iff_eq.mpr (hblanks c hc)) (by
            rw [hd]
            rintro c ⟨⟩
            exact beq_false_of_ne (ne_blank_of_isSpaceOrEnd hspace))
        rw [plainSpaces, htake]
        dsimp only
        rw [hpeek, isBreak_of_isSpaceOrEnd hspace, if_neg Bool.false_ne_true]
      have hlength : plainLength false (blanks ++ (form ++ tail)) = 0 := by
        cases blanks with
        | nil => exact absurd rfl hne
        | cons b blanks =>
            rw [hblanks b List.mem_cons_self]
            rfl
      have hmark : least ≤
          (((scan.behind.skip word.length).skip blanks.length).mark.column : Int) := by
        rw [mark_skip_of_takesColumn (fun c hc => hblanks c hc ▸ takesColumn_blank) hbehind,
          mark_skip_of_takesColumn hword.takesColumn hrest]
        push_cast
        omega
      rw [scanPlainPieces_gap hword hlength hrest hspaces hne (hpeek ▸ hsharp) hmark]
      rcases h fuel blanks ⟨_, _, _, _⟩ hafter
        (Int.le_trans hmark (Int.le_add_one (Int.le_refl _)))
        (by rw [List.length_append]; omega) with ⟨stop, hscan⟩
      rw [hscan]
      exact ⟨stop, by simp [skip_skip, Nat.add_assoc]⟩

theorem folded (hleast : least ≤ indent) (hindent : 0 < indent) (hword : IsPlainWord word)
    (hform : PlainForm indent rest form) (h : IsScannedAs least tail n broken form cs) :
    IsScannedAs least tail n broken (word ++ (lineStart indent ++ form))
      (word ++ ([' '] ++ cs)) := by
  intro fuel spaces scan hrest _ hfuel
  cases fuel with
  | zero => cases hfuel
  | succ fuel =>
      have hpos := List.length_pos_iff.mpr hword.ne_nil
      simp only [List.append_assoc] at hrest
      simp only [List.length_append, length_lineStart] at hfuel
      have hbehind := rest_skip_append hrest
      have hafter : ((scan.behind.skip word.length).skip (indent + 1)).rest = form ++ tail := by
        have h := rest_skip_append hbehind
        rwa [length_lineStart] at h
      rcases hform.exists_cons with ⟨d, more, hd, hspace, hsharp⟩
      have hpeek : ((scan.behind.skip word.length).skip (indent + 1)).peek = d := by
        rw [peek, hafter, hd]
        rfl
      have hhead : (form ++ tail).headD endMark = d := by
        rw [hd]
        rfl
      have hspaces := @plainSpaces_newLine indent _ _ fuel hbehind
        (hhead ▸ ne_blank_of_isSpaceOrEnd hspace) (hhead ▸ isBreak_of_isSpaceOrEnd hspace)
        (atDocumentBorder_blanks (rest_next_cons hbehind) hindent) (by omega)
      have hmark : least ≤
          (((scan.behind.skip word.length).skip (indent + 1)).mark.column : Int) := by
        rw [mark_skip_newLine hbehind]
        exact hleast
      rw [scanPlainPieces_gap hword rfl hrest hspaces (List.cons_ne_nil _ _) (hpeek ▸ hsharp)
        hmark]
      rcases h fuel [' '] ⟨_, _, _, (scan.behind.skip word.length).skip (indent + 1)⟩ hafter
        (Int.le_trans hmark (Int.le_add_one (Int.le_refl _)))
        (by rw [List.length_append]; omega) with ⟨stop, hscan⟩
      rw [hscan]
      have hlength : (word ++ (lineStart indent ++ form)).length + n =
          word.length + (indent + 1 + (form.length + n)) := by
        simp only [List.length_append, length_lineStart]
        omega
      rw [skip_skip, skip_skip, hlength, Nat.add_assoc]
      exact ⟨stop, by simp⟩

end IsScannedAs

theorem PlainForm.isScannedAs {indent : Nat} {rs : List (Piece × List Char)} {form : List Char}
    (h : PlainForm indent rs form) {least : Int} (hleast : least ≤ indent) (hindent : 0 < indent)
    {tail : List Char} {n : Nat} {broken : Bool} (hstop : PlainStop least tail n broken) :
    IsScannedAs least tail n broken form (rs.flatMap (·.2)) := by
  induction h with
  | @last word hword =>
      rw [List.flatMap_singleton]
      exact .last hword hstop
  | blanks hword hne hblanks hform ih =>
      rw [List.flatMap_cons, List.flatMap_cons]
      exact .blanks hword hne hblanks hform ih
  | folded hword hform ih =>
      rw [List.flatMap_cons, List.flatMap_cons]
      exact .folded hleast hindent hword hform ih

/-- A plain scalar is read back as the text it was written for. -/
theorem scanPlain_form {indent : Nat} {cs form : List Char}
    (h : PlainForm indent (runs Piece.of cs) form) {outer : Int} (houter : outer < indent)
    (hindent : 0 < indent) {tail : List Char} {n : Nat} {broken : Bool}
    (hstop : PlainStop (outer + 1) tail n broken) {fuel : Nat} {c : Cursor}
    (hrest : c.rest = form ++ tail) (hcolumn : outer ≤ c.mark.column)
    (hfuel : (form ++ tail).length < fuel) :
    ∃ stop, scanPlain fuel false outer c = ⟨cs, stop, broken, c.skip (form.length + n)⟩ := by
  rcases h.isScannedAs houter hindent hstop fuel [] ⟨[], c.mark, false, c⟩ hrest
    (Int.add_le_add_right hcolumn 1) hfuel with ⟨stop, hscan⟩
  rw [flatMap_runs] at hscan
  exact ⟨stop, hscan⟩

end Yaml
end TextMate
