import TextMate.Proofs.Yaml.Single

/-!
# Writing between double quotes

Characters that stand for themselves are held back until a line ends behind them
or an escape follows.  A line is ended by a backslash, and a blank that would
begin the next one is written behind another backslash.  Where the indentation
alone is wider than a line should be, the line is ended once more between that
backslash and its blank.  The two backslashes and the end of the line behind
them then spell a backslash and a blank that the text does not have.
-/

namespace TextMate
namespace Yaml

open Pen

/-!
## What is read
-/

def startsInnerBlank : List Char → Bool
  | ' ' :: _ :: _ => true
  | _ => false

theorem startsInnerBlank_cons {c : Char} {rest : List Char} :
    startsInnerBlank (c :: rest) = true ↔ c = ' ' ∧ rest ≠ [] := by
  cases rest with
  | nil => simp [startsInnerBlank]
  | cons d rest =>
      constructor
      · intro h
        unfold startsInnerBlank at h
        split at h
        next heq =>
          cases heq
          exact ⟨rfl, List.cons_ne_nil _ _⟩
        next => cases h
      · rintro ⟨rfl, _⟩
        rfl

/-- A text that has been written between double quotes, as it is read.  `deep` tells whether lines
are ended and the indentation is wide, `isFirst` whether no character stands before. -/
def rereadDouble (deep : Bool) : Bool → List Char → List Char
  | _, [] => []
  | isFirst, c :: rest =>
      c :: (if deep && !isFirst && !isLiteral c && startsInnerBlank rest then ['\\', ' '] else [])
        ++ rereadDouble deep false rest

theorem rereadDouble_of_not_deep (isFirst : Bool) (cs : List Char) :
    rereadDouble false isFirst cs = cs := by
  induction cs generalizing isFirst with
  | nil => rfl
  | cons c rest ih =>
      rw [rereadDouble, ih]
      rfl

/-!
## Characters
-/

theorem isSpaceOrEnd_of_isLiteral {c : Char} (h : isLiteral c = true) (hblank : c ≠ ' ') :
    isSpaceOrEnd c = false := by
  have hcodes : c.toNat ≠ 0x85 ∧ c.toNat ≠ 0x2028 ∧ c.toNat ≠ 0x2029 := by
    simp only [isLiteral, Bool.and_eq_true, Bool.or_eq_true, Bool.not_eq_true',
      Bool.or_eq_false_iff, beq_eq_false_iff_ne, decide_eq_true_eq] at h
    omega
  have hne : ∀ d : Char, isLiteral d = false → (c == d) = false := by
    rintro d hd
    refine beq_false_of_ne ?_
    rintro rfl
    rw [h] at hd
    cases hd
  rw [isSpaceOrEnd, isBlankOrEnd, isBreakOrEnd, isBreak, beq_false_of_ne hblank,
    beq_false_of_ne hcodes.1, beq_false_of_ne hcodes.2.1, beq_false_of_ne hcodes.2.2,
    hne '\t' (by decide), hne '\n' (by decide), hne '\r' (by decide), hne endMark (by decide)]
  rfl

theorem isLiteral_blank : isLiteral ' ' = true := by
  decide

theorem two_le_length_escape (c : Char) : 2 ≤ (escape c).length := by
  rcases escape_cases c with ⟨letter, _, h⟩ | ⟨letter, width, _, _, _, h⟩
  all_goals
    rw [h]
    simp

def StartsInner (inner : List Char) : Prop :=
  ∀ c ∈ inner.head?, c = ' ' ∨ isSpaceOrEnd c = false

theorem spells_literals {literals inner cs : List Char}
    (hliterals : ∀ c ∈ literals, isLiteral c = true) (hinner : StartsInner inner)
    (h : Spells true inner cs) :
    Spells true (literals ++ inner) (literals ++ cs) ∧ StartsInner (literals ++ inner) := by
  induction literals with
  | nil => exact ⟨h, hinner⟩
  | cons c literals ih =>
      have hc := hliterals c List.mem_cons_self
      rcases ih fun d hd => hliterals d (List.mem_cons_of_mem _ hd) with ⟨hspells, hstarts⟩
      by_cases hblank : c = ' '
      · subst hblank
        refine ⟨.blank hstarts hspells, ?_⟩
        rintro _ ⟨⟩
        exact Or.inl rfl
      · have hspace := isSpaceOrEnd_of_isLiteral hc hblank
        refine ⟨.char ?_ ?_ hspace hspells, ?_⟩
        · rintro rfl
          revert hc
          decide
        · rintro _ rfl
          revert hc
          decide
        · rintro _ ⟨⟩
          exact Or.inr hspace

/-!
## Characters that are held back
-/

def slash (armed : Bool) : List Char :=
  if armed then ['\\'] else []

theorem spells_pending {armed : Bool} {pending inner cs : List Char}
    (hliterals : ∀ c ∈ pending, isLiteral c = true)
    (harmed : armed = true → pending.getLast? = some ' ') (hinner : StartsInner inner)
    (h : Spells true inner cs) :
    Spells true (slash armed ++ (pending.reverse ++ inner)) (pending.reverse ++ cs)
      ∧ StartsInner (slash armed ++ (pending.reverse ++ inner)) := by
  cases armed with
  | false =>
      exact @spells_literals pending.reverse _ _
        (fun c hc => hliterals c (List.mem_reverse.mp hc)) hinner h
  | true =>
      rcases List.getLast?_eq_some_iff.mp (harmed rfl) with ⟨init, rfl⟩
      rw [List.reverse_append, List.reverse_singleton, List.singleton_append, List.cons_append]
      have hrest := @spells_literals init.reverse _ _
        (fun c hc => hliterals c (List.mem_append_left _ (List.mem_reverse.mp hc))) hinner h
      refine ⟨.escapedBlank rfl hrest.1, ?_⟩
      rintro _ ⟨⟩
      exact Or.inr rfl

/-- The end of a line behind a backslash, in front of what does not begin with a blank. -/
theorem spells_fold {indent : Nat} (hindent : 0 < indent) {inner cs : List Char}
    (hinner : StartsInner inner) (hblank : inner.head? ≠ some ' ') (h : Spells true inner cs) :
    Spells true ('\\' :: (lineStart indent ++ inner)) cs
      ∧ StartsInner ('\\' :: (lineStart indent ++ inner)) := by
  refine ⟨.escapedBreak rfl hindent ?_ h, ?_⟩
  · intro c hc
    refine (hinner c hc).resolve_left ?_
    rintro rfl
    exact hblank hc
  · rintro _ ⟨⟩
    exact Or.inr rfl

theorem doubleFold_eq {p : Pen} (hp : p.inIndent = false) (indent : Nat) (pending : List Char)
    (next : Char) :
    p.doubleFold indent pending next =
      ⟨(pending.reverse ++ '\\' :: (lineStart indent ++ slash (next == ' '))).reverse ++ p.written,
        indent + (slash (next == ' ')).length, false, false⟩ := by
  rw [doubleFold, indentTo_newLine (p := p.put ('\\' :: pending).reverse) (Or.inl hp)]
  cases hnext : next == ' ' <;> simp [slash, inScalar, put]

/-!
## Writing
-/

def strayText (deep armed : Bool) (pending cs : List Char) : List Char :=
  if deep && armed && pending.isEmpty && startsInnerBlank cs then ['\\', ' '] else []

theorem strayText_eq_nil {armed : Bool} {pending : List Char} (deep : Bool) (cs : List Char)
    (h : ¬(armed = true ∧ pending = [])) : strayText deep armed pending cs = [] := by
  rw [strayText, if_neg]
  simp only [Bool.and_eq_true, List.isEmpty_iff]
  exact fun hall => h ⟨hall.1.1.2, hall.1.2⟩

theorem strayText_cons (deep armed : Bool) (c : Char) (pending cs : List Char) :
    strayText deep armed (c :: pending) cs = [] :=
  strayText_eq_nil _ _ fun h => nomatch h.2

theorem strayText_eq_nil_of_ne (deep armed : Bool) {c : Char} (pending rest : List Char)
    (h : c ≠ ' ') : strayText deep armed pending (c :: rest) = [] := by
  have hinner : startsInnerBlank (c :: rest) = false := by
    rw [Bool.eq_false_iff]
    exact fun hinner => h (startsInnerBlank_cons.mp hinner).1
  rw [strayText, hinner, Bool.and_false]
  rfl

theorem rereadDouble_of_escape {c : Char} (h : isLiteral c = false) (deep : Bool)
    (rest : List Char) :
    rereadDouble deep false (c :: rest) =
      c :: (strayText deep (rest.headD 'x' == ' ') [] rest ++ rereadDouble deep false rest) := by
  rw [rereadDouble, h, strayText]
  cases hinner : startsInnerBlank rest with
  | false => simp
  | true =>
      cases rest with
      | nil => cases hinner
      | cons d rest =>
          rw [(startsInnerBlank_cons.mp hinner).1]
          simp

theorem rereadDouble_of_isLiteral {c : Char} (h : isLiteral c = true) (deep isFirst : Bool)
    (rest : List Char) :
    rereadDouble deep isFirst (c :: rest) = c :: rereadDouble deep false rest := by
  rw [rereadDouble, h]
  simp

/-- The state between two characters.  Where a backslash has been written, a blank follows, which
has been held back or is the next character on a new line. -/
structure DoubleState (split : Bool) (indent : Nat) (deep isFirst armed : Bool)
    (pending cs : List Char) (p : Pen) : Prop where
  inIndent : p.inIndent = false
  literals : ∀ c ∈ pending, isLiteral c = true
  splits : armed = true → split = true ∧ isFirst = false
  blank : armed = true → pending.getLast? = some ' '
    ∨ (pending = [] ∧ cs.head? = some ' ' ∧ p.column = indent + 1)
  deep_iff : deep = (split && decide (bestWidth ≤ indent))
  column : deep = true → bestWidth ≤ p.column

namespace DoubleState

variable {split deep isFirst armed : Bool} {indent : Nat} {pending rest : List Char} {c : Char}
  {p : Pen}

theorem getLast?_pending (h : DoubleState split indent deep isFirst armed pending (c :: rest) p)
    (hc : pending = [] → c ≠ ' ') : armed = true → pending.getLast? = some ' ' := by
  intro harmed
  rcases h.blank harmed with hlast | ⟨hnil, hhead, _⟩
  · exact hlast
  · exact absurd (Option.some.inj hhead) (hc hnil)

theorem hold (h : DoubleState split indent deep isFirst armed pending (c :: rest) p)
    (hc : isLiteral c = true) :
    DoubleState split indent deep false armed (c :: pending) rest p where
  inIndent := h.inIndent
  literals := by
    intro d hd
    rcases List.mem_cons.mp hd with rfl | hd
    · exact hc
    · exact h.literals d hd
  splits := fun harmed => ⟨(h.splits harmed).1, rfl⟩
  blank := by
    intro harmed
    refine Or.inl ?_
    rcases h.blank harmed with hlast | ⟨rfl, hhead, _⟩
    · rw [List.getLast?_cons, hlast]
      rfl
    · exact hhead
  deep_iff := h.deep_iff
  column := h.column

theorem foldBefore (h : DoubleState split indent deep isFirst armed pending (c :: rest) p)
    (hc : isLiteral c = true) (hsplit : split = true) :
    DoubleState split indent deep false (c == ' ') [c] rest (p.doubleFold indent pending c) where
  inIndent := by rw [doubleFold_eq h.inIndent]
  literals := by
    intro d hd
    rw [List.mem_singleton.mp hd]
    exact hc
  splits := fun _ => ⟨hsplit, rfl⟩
  blank := fun harmed => Or.inl (congrArg some (beq_iff_eq.mp harmed))
  deep_iff := h.deep_iff
  column := by
    intro hdeep
    rw [h.deep_iff, Bool.and_eq_true, decide_eq_true_eq] at hdeep
    rw [doubleFold_eq h.inIndent]
    exact Nat.le_add_right_of_le hdeep.2

theorem escaped (h : DoubleState split indent deep isFirst armed pending (c :: rest) p) :
    DoubleState split indent deep false false [] rest
      ((p.put pending.reverse).put (escape c)) where
  inIndent := h.inIndent
  literals := by
    rintro d ⟨⟩
  splits := fun harmed => nomatch harmed
  blank := fun harmed => nomatch harmed
  deep_iff := h.deep_iff
  column := by
    intro hdeep
    have hcolumn := h.column hdeep
    simp only [column_put]
    omega

theorem foldBehind (h : DoubleState split indent deep isFirst armed pending (c :: rest) p)
    (hsplit : split = true) :
    DoubleState split indent deep false (rest.headD 'x' == ' ') [] rest
      (((p.put pending.reverse).put (escape c)).doubleFold indent [] (rest.headD 'x')) where
  inIndent := by rw [doubleFold_eq h.escaped.inIndent]
  literals := by
    rintro d ⟨⟩
  splits := fun _ => ⟨hsplit, rfl⟩
  blank := by
    intro harmed
    refine Or.inr ⟨rfl, ?_, ?_⟩
    · cases rest with
      | nil => cases harmed
      | cons d rest => exact congrArg some (beq_iff_eq.mp harmed)
    · rw [doubleFold_eq h.escaped.inIndent, harmed]
      rfl
  deep_iff := h.deep_iff
  column := by
    intro hdeep
    rw [h.deep_iff, Bool.and_eq_true, decide_eq_true_eq] at hdeep
    rw [doubleFold_eq h.escaped.inIndent]
    exact Nat.le_add_right_of_le hdeep.2

end DoubleState

theorem spells_held {armed : Bool} {pending inner cs : List Char}
    (hliterals : ∀ c ∈ pending, isLiteral c = true)
    (harmed : armed = true → pending.getLast? = some ' ') (h : Spells true ('\\' :: inner) cs)
    (rest : List Char) :
    Spells true (slash armed ++ (pending.reverse ++ '\\' :: inner)) (pending.reverse ++ cs)
      ∧ StartsInner (slash armed ++ (pending.reverse ++ '\\' :: inner))
      ∧ ((armed = false → (pending.reverse ++ rest).head? ≠ some ' ') →
        (slash armed ++ (pending.reverse ++ '\\' :: inner)).head? ≠ some ' ') := by
  have hinner : StartsInner ('\\' :: inner) := by
    rintro _ ⟨⟩
    exact Or.inr rfl
  rcases spells_pending hliterals harmed hinner h with ⟨hspells, hstarts⟩
  refine ⟨hspells, hstarts, ?_⟩
  intro hhead
  cases armed with
  | true => exact fun heq => nomatch heq
  | false =>
      have hhead := hhead rfl
      rw [slash, if_neg Bool.false_ne_true, List.nil_append]
      cases hpending : pending.reverse with
      | nil => exact fun heq => nomatch heq
      | cons d more =>
          rw [hpending] at hhead
          exact hhead

/-- What is written between two pens spells the characters that were held back and those behind
them, as they are read, and begins with a blank only if these do. -/
def Writes (deep isFirst armed : Bool) (pending cs : List Char) (p q : Pen) : Prop :=
  ∃ inner, q.written = inner.reverse ++ p.written
    ∧ Spells true (slash armed ++ inner)
      (pending.reverse ++ (strayText deep armed pending cs ++ rereadDouble deep isFirst cs))
    ∧ StartsInner (slash armed ++ inner)
    ∧ ((armed = false → (pending.reverse ++ cs).head? ≠ some ' ') →
      (slash armed ++ inner).head? ≠ some ' ')

/-- Behind the end of a line nothing begins with a blank but what follows a backslash. -/
theorem head?_behind_fold {cs inner : List Char} {next : Char}
    (hnext : ∀ d ∈ cs.head?, d = next)
    (hhead : ((next == ' ') = false → cs.head? ≠ some ' ') →
      (slash (next == ' ') ++ inner).head? ≠ some ' ') :
    (slash (next == ' ') ++ inner).head? ≠ some ' ' := by
  apply hhead
  intro hne heq
  rw [← hnext ' ' heq] at hne
  cases hne

theorem Writes.of_held {deep isFirst armed : Bool} {pending rest : List Char} {c : Char} {p q : Pen}
    (hliteral : isLiteral c = true) (hstray : strayText deep armed pending (c :: rest) = [])
    (hq : Writes deep false armed (c :: pending) rest p q) :
    Writes deep isFirst armed pending (c :: rest) p q := by
  rcases hq with ⟨inner, hwritten, hspells, hstarts, hhead⟩
  refine ⟨inner, hwritten, ?_, hstarts, ?_⟩
  · rw [strayText_cons, List.nil_append, List.reverse_cons, List.append_assoc,
      List.singleton_append, ← rereadDouble_of_isLiteral hliteral deep isFirst] at hspells
    rwa [hstray]
  · simpa using hhead

namespace DoubleState

variable {split deep isFirst armed : Bool} {indent : Nat} {pending rest : List Char} {c : Char}
  {p q : Pen}

theorem writes_nil (h : DoubleState split indent deep isFirst armed pending [] p) :
    Writes deep isFirst armed pending [] p (p.put pending.reverse) := by
  have harmed : armed = true → pending.getLast? = some ' ' := by
    intro harmed
    exact (h.blank harmed).resolve_right fun h => nomatch h.2.1
  have hnil : StartsInner [] := by
    rintro _ ⟨⟩
  have hheld := spells_pending h.literals harmed hnil .nil
  refine ⟨pending.reverse, rfl, ?_⟩
  rw [List.append_nil] at hheld
  refine ⟨?_, hheld.2, ?_⟩
  · simpa [strayText, startsInnerBlank, rereadDouble] using hheld.1
  · intro hhead
    cases armed with
    | true => exact fun heq => nomatch heq
    | false => simpa [slash] using hhead rfl

/-- A blank behind an escape is not held back where lines are ended and the indentation is wide. -/
theorem strayText_of_held
    (h : DoubleState split indent deep isFirst armed pending (c :: rest) p)
    (hfold : ¬(split && !isFirst && !rest.isEmpty && (c == ' ' || pending.isEmpty)
      && decide (bestWidth < p.column + pending.length)) = true) :
    strayText deep armed pending (c :: rest) = [] := by
  rw [strayText, if_neg]
  simp only [Bool.and_eq_true, List.isEmpty_iff]
  rintro ⟨⟨⟨hdeep, rfl⟩, rfl⟩, hinner⟩
  rcases startsInnerBlank_cons.mp hinner with ⟨rfl, hrest⟩
  have hcolumn : p.column = indent + 1 := ((h.blank rfl).resolve_left fun h => nomatch h).2.2
  rw [h.deep_iff, Bool.and_eq_true, decide_eq_true_eq] at hdeep
  apply hfold
  rw [(h.splits rfl).1, (h.splits rfl).2, List.isEmpty_eq_false_iff.mpr hrest]
  refine decide_eq_true ?_
  rw [hcolumn, List.length_nil]
  omega

theorem writes_foldBefore_stray (hindent : 0 < indent)
    (h : DoubleState split indent deep isFirst true [] (c :: rest) p)
    (hliteral : isLiteral c = true) (hsplit : split = true) (hrest : rest ≠ [])
    (hwide : bestWidth < p.column)
    (hq : Writes deep false (c == ' ') [c] rest (p.doubleFold indent [] c) q) :
    Writes deep isFirst true [] (c :: rest) p q := by
  rcases hq with ⟨inner, hwritten, hspells, _, _⟩
  rcases h.blank rfl with hlast | ⟨_, hhead, hcolumn⟩
  · cases hlast
  have hc : c = ' ' := Option.some.inj hhead
  subst hc
  have hdeep : deep = true := by
    rw [h.deep_iff, hsplit, Bool.true_and, decide_eq_true_eq]
    omega
  have hbroken := Spells.breaks (List.cons_ne_nil '\n' []) isKeptBreak_of_mem_lineFeed
    hindent (by rintro _ ⟨⟩; rfl) hspells
  rw [doubleFold_eq h.inIndent] at hwritten
  refine ⟨'\\' :: (lineStart indent ++ (slash (' ' == ' ') ++ inner)), ?_, ?_, ?_, ?_⟩
  · rw [hwritten]
    simp
  · have hslash : Spells true ('\\' :: '\\' :: (['\n'] ++ (List.replicate indent ' ' ++
        (slash (' ' == ' ') ++ inner)))) _ := @Spells.escape true '\\' _ _ rfl hbroken
    rw [strayText_cons, List.nil_append] at hslash
    have hstray : strayText deep true [] (' ' :: rest) = ['\\', ' '] := by
      rw [strayText, hdeep, startsInnerBlank_cons.mpr ⟨rfl, hrest⟩]
      rfl
    rw [hstray, rereadDouble_of_isLiteral hliteral]
    exact hslash
  · rintro _ ⟨⟩
    exact Or.inr rfl
  · exact fun _ heq => nomatch heq

theorem writes_foldBefore (hindent : 0 < indent)
    (h : DoubleState split indent deep isFirst armed pending (c :: rest) p)
    (hliteral : isLiteral c = true) (hstray : ¬(armed = true ∧ pending = []))
    (hq : Writes deep false (c == ' ') [c] rest (p.doubleFold indent pending c) q) :
    Writes deep isFirst armed pending (c :: rest) p q := by
  rcases hq with ⟨inner, hwritten, hspells, hstarts, hhead⟩
  have hblank := head?_behind_fold (by rintro _ ⟨⟩; rfl) hhead
  have hfolded := spells_fold hindent hstarts hblank hspells
  have harmed : armed = true → pending.getLast? = some ' ' := by
    intro harmed
    exact (h.blank harmed).resolve_right fun hnil => hstray ⟨harmed, hnil.1⟩
  have hheld := spells_held h.literals harmed hfolded.1 (c :: rest)
  rw [doubleFold_eq h.inIndent] at hwritten
  refine ⟨pending.reverse ++ '\\' :: (lineStart indent ++ (slash (c == ' ') ++ inner)), ?_, ?_,
    hheld.2⟩
  · rw [hwritten]
    simp
  · have hheld := hheld.1
    rw [strayText_cons, List.reverse_singleton, List.nil_append, List.singleton_append,
      ← rereadDouble_of_isLiteral hliteral deep isFirst] at hheld
    rwa [strayText_eq_nil _ _ hstray]

/-- An escape is written behind what has been held back, and what comes then spells the rest. -/
theorem spells_escape (h : DoubleState split indent deep isFirst armed pending (c :: rest) p)
    (hliteral : isLiteral c = false) {inner cs : List Char} (hinner : Spells true inner cs) :
    Spells true (slash armed ++ (pending.reverse ++ (escape c ++ inner)))
        (pending.reverse ++ (strayText deep armed pending (c :: rest) ++ c :: cs))
      ∧ StartsInner (slash armed ++ (pending.reverse ++ (escape c ++ inner)))
      ∧ ((armed = false → (pending.reverse ++ c :: rest).head? ≠ some ' ') →
        (slash armed ++ (pending.reverse ++ (escape c ++ inner))).head? ≠ some ' ') := by
  have hne : c ≠ ' ' := by
    rintro rfl
    rw [isLiteral_blank] at hliteral
    cases hliteral
  have hescape : Spells true (escape c ++ inner) (c :: cs) := .escape rfl hinner
  rcases exists_escape_eq c with ⟨more, hmore⟩
  rw [hmore] at hescape ⊢
  rw [strayText_eq_nil_of_ne _ _ _ _ hne, List.nil_append]
  exact spells_held h.literals (h.getLast?_pending fun _ => hne) hescape (c :: rest)

theorem writes_foldBehind (hindent : 0 < indent)
    (h : DoubleState split indent deep false armed pending (c :: rest) p)
    (hliteral : isLiteral c = false)
    (hq : Writes deep false (rest.headD 'x' == ' ') [] rest
      (((p.put pending.reverse).put (escape c)).doubleFold indent [] (rest.headD 'x')) q) :
    Writes deep false armed pending (c :: rest) p q := by
  rcases hq with ⟨inner, hwritten, hspells, hstarts, hhead⟩
  have hblank := head?_behind_fold (by cases rest <;> rintro _ ⟨⟩; rfl) hhead
  have hfolded := spells_fold hindent hstarts hblank hspells
  rw [doubleFold_eq h.escaped.inIndent] at hwritten
  refine ⟨_, ?_, ?_, (h.spells_escape hliteral hfolded.1).2⟩
  · rw [hwritten]
    simp
  · rw [rereadDouble_of_escape hliteral]
    exact (h.spells_escape hliteral hfolded.1).1

theorem not_stray_of_escaped
    (h : DoubleState split indent deep isFirst armed pending (c :: rest) p)
    (hfold : ¬(split && !isFirst && !rest.isEmpty
      && decide (bestWidth + 1 < ((p.put pending.reverse).put (escape c)).column)) = true) :
    (deep && !isFirst && !isLiteral c && startsInnerBlank rest) = false := by
  rw [Bool.eq_false_iff]
  intro hstray
  simp only [Bool.and_eq_true, Bool.not_eq_true'] at hstray
  rcases hstray with ⟨⟨⟨hdeep, hfirst⟩, _⟩, hinner⟩
  have hrest : rest.isEmpty = false := by
    cases rest with
    | nil => cases hinner
    | cons d rest => rfl
  have hcolumn := h.column hdeep
  have hlength := two_le_length_escape c
  rw [h.deep_iff, Bool.and_eq_true] at hdeep
  apply hfold
  rw [hdeep.1, hfirst, hrest]
  refine decide_eq_true ?_
  simp only [column_put]
  omega

theorem writes_escaped (h : DoubleState split indent deep isFirst armed pending (c :: rest) p)
    (hliteral : isLiteral c = false)
    (hstray : (deep && !isFirst && !isLiteral c && startsInnerBlank rest) = false)
    (hq : Writes deep false false [] rest ((p.put pending.reverse).put (escape c)) q) :
    Writes deep isFirst armed pending (c :: rest) p q := by
  rcases hq with ⟨inner, hwritten, hspells, _, _⟩
  rw [@strayText_eq_nil false [] deep rest fun h => nomatch h.1] at hspells
  refine ⟨_, ?_, ?_, (h.spells_escape hliteral hspells).2⟩
  · rw [hwritten]
    simp [slash]
  · rw [rereadDouble, hstray]
    exact (h.spells_escape hliteral hspells).1

end DoubleState

theorem doubleChars_written {split : Bool} {indent : Nat} (hindent : 0 < indent) {deep : Bool}
    {cs : List Char} {isFirst armed : Bool} {pending : List Char} {p : Pen}
    (h : DoubleState split indent deep isFirst armed pending cs p) :
    Writes deep isFirst armed pending cs p (doubleChars split indent isFirst pending cs p) := by
  induction cs generalizing isFirst armed pending p with
  | nil => exact h.writes_nil
  | cons c rest ih =>
      rw [doubleChars]
      dsimp only
      split
      case isTrue hliteral =>
        split
        case isTrue hfold =>
          simp only [Bool.and_eq_true, Bool.not_eq_true', decide_eq_true_eq,
            List.isEmpty_eq_false_iff]
            at hfold
          rcases hfold with ⟨⟨⟨⟨hsplit, _⟩, hrest⟩, _⟩, hwide⟩
          have hbehind := ih (h.foldBefore hliteral hsplit)
          by_cases hstray : armed = true ∧ pending = []
          · rcases hstray with ⟨rfl, rfl⟩
            exact h.writes_foldBefore_stray hindent hliteral hsplit hrest hwide hbehind
          · exact h.writes_foldBefore hindent hliteral hstray hbehind
        case isFalse hfold =>
          exact (ih (h.hold hliteral)).of_held hliteral (h.strayText_of_held hfold)
      case isFalse hescaped =>
        have hliteral : isLiteral c = false := Bool.not_eq_true _ ▸ hescaped
        split
        case isTrue hfold =>
          simp only [Bool.and_eq_true, Bool.not_eq_true', decide_eq_true_eq] at hfold
          rcases hfold with ⟨⟨⟨hsplit, rfl⟩, _⟩, _⟩
          exact h.writes_foldBehind hindent hliteral (ih (h.foldBehind hsplit))
        case isFalse hfold =>
          exact h.writes_escaped hliteral (h.not_stray_of_escaped hfold) (ih h.escaped)

def doubleChar (c : Char) : List Char :=
  if isLiteral c then [c] else escape c

theorem doubleChars_key (indent : Nat) (isFirst : Bool) (pending cs : List Char) (p : Pen) :
    doubleChars false indent isFirst pending cs p =
      p.put (pending.reverse ++ cs.flatMap doubleChar) := by
  induction cs generalizing isFirst pending p with
  | nil =>
      rw [doubleChars, List.flatMap_nil, List.append_nil]
  | cons c rest ih =>
      rw [doubleChars, List.flatMap_cons, doubleChar]
      simp only [Bool.false_and, Bool.false_eq_true, if_false]
      split
      · rw [ih]
        simp
      · rw [ih]
        simp [put, Nat.add_assoc]

/-- A text between double quotes spells the text as it is read. -/
theorem double_written (split : Bool) {indent : Nat} (hindent : 0 < indent) (cs : List Char)
    {p : Pen} (hp : split = true → indent ≤ p.column + 1) :
    ∃ inner, Spells true inner (rereadDouble (split && decide (bestWidth ≤ indent)) true cs)
      ∧ (p.double split indent cs).written =
        (p.lead ++ '"' :: (inner ++ ['"'])).reverse ++ p.written
      ∧ (p.double split indent cs).inIndent = false
      ∧ (p.double split indent cs).afterSpace = false
      ∧ (split = false → inner = cs.flatMap doubleChar
        ∧ (p.double split indent cs).column =
          p.column + (p.lead ++ '"' :: (inner ++ ['"'])).length) := by
  have hstate : DoubleState split indent (split && decide (bestWidth ≤ indent)) true false [] cs
      (p.sign ['"'] true false) := by
    rw [sign_quote]
    refine ⟨rfl, ?_, (fun h => nomatch h), (fun h => nomatch h), rfl, ?_⟩
    · rintro c ⟨⟩
    · intro hdeep
      rw [Bool.and_eq_true, decide_eq_true_eq] at hdeep
      have hcolumn := hp hdeep.1
      simp only [List.length_append, List.length_singleton]
      omega
  rcases doubleChars_written hindent hstate with ⟨inner, hwritten, hspells, _⟩
  rw [@strayText_eq_nil false [] _ cs fun h => nomatch h.1] at hspells
  rw [double, sign_close]
  refine ⟨inner, hspells, ?_, Bool.and_false _, rfl, ?_⟩
  · rw [hwritten, sign_quote]
    simp
  · rintro rfl
    rw [doubleChars_key, sign_quote] at hwritten ⊢
    have hinner : inner = cs.flatMap doubleChar := by
      simpa using hwritten.symm
    refine ⟨hinner, ?_⟩
    rw [hinner]
    simp only [column_put, List.reverse_nil, List.nil_append, List.length_append,
      List.length_cons, List.length_nil]
    omega

theorem length_le_rereadDouble (isFirst : Bool) (cs : List Char) :
    cs.length ≤ (rereadDouble true isFirst cs).length := by
  induction cs generalizing isFirst with
  | nil => exact Nat.le_refl _
  | cons c rest ih =>
      have hrest := ih false
      rw [rereadDouble, List.cons_append, List.length_cons, List.length_cons, List.length_append]
      omega

/-- With a wide indentation a text is read with more characters than it has if and only if an
escape behind its first character is followed by a blank before its last one. -/
theorem rereadDouble_ne_self_iff (isFirst : Bool) (cs : List Char) :
    rereadDouble true isFirst cs ≠ cs ↔
      ∃ before c behind, cs = before ++ c :: ' ' :: behind ∧ isLiteral c = false
        ∧ (isFirst = true → before ≠ []) ∧ behind ≠ [] := by
  induction cs generalizing isFirst with
  | nil => simp [rereadDouble]
  | cons c rest ih =>
      rw [rereadDouble]
      cases hstray : (true && !isFirst && !isLiteral c && startsInnerBlank rest) with
      | true =>
          simp only [Bool.true_and, Bool.and_eq_true, Bool.not_eq_true'] at hstray
          rcases hstray with ⟨⟨hfirst, hc⟩, hinner⟩
          refine iff_of_true ?_ ?_
          · intro heq
            have hlength := congrArg List.length heq
            have hrest := length_le_rereadDouble false rest
            simp at hlength
            omega
          · cases rest with
            | nil => cases hinner
            | cons d behind =>
                rcases startsInnerBlank_cons.mp hinner with ⟨rfl, hbehind⟩
                refine ⟨[], c, behind, rfl, hc, ?_, hbehind⟩
                rw [hfirst]
                exact fun h => nomatch h
      | false =>
          have hrest :
              (c :: (if false = true then ['\\', ' '] else []) ++ rereadDouble true false rest)
              ≠ c :: rest ↔ rereadDouble true false rest ≠ rest := by
            simp
          rw [hrest, ih]
          constructor
          · rintro ⟨before, d, behind, rfl, hd, _, hbehind⟩
            exact ⟨c :: before, d, behind, rfl, hd, fun _ => List.cons_ne_nil _ _, hbehind⟩
          · rintro ⟨before, d, behind, heq, hd, hbefore, hbehind⟩
            cases before with
            | nil =>
                cases heq
                have hfirst : isFirst = false := by
                  cases isFirst with
                  | false => rfl
                  | true => exact absurd rfl (hbefore rfl)
                rw [hfirst, hd, startsInnerBlank_cons.mpr ⟨rfl, hbehind⟩] at hstray
                cases hstray
            | cons b before =>
                cases heq
                exact ⟨before, d, behind, rfl, hd, (fun h => nomatch h), hbehind⟩

end Yaml
end TextMate
