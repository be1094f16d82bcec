import TextMate.Proofs.Yaml.Quoted

/-!
# Writing between single quotes

A text is written run by run.  A blank between words may become the end of a
line, and breaks are followed by the indentation of the next line.  What has
been written spells the text, but for its breaks: the scanner takes every break
but the separators for a line feed, and a single one for a blank.
-/

namespace TextMate
namespace Yaml

open Pen

/-!
## Runs that may be quoted
-/

def WordsBetween : List (Piece × List Char) → Prop
  | (kind, _) :: (kind', run') :: rest =>
      (kind = .word ∨ kind' = .word) ∧ WordsBetween ((kind', run') :: rest)
  | _ => True

theorem hasPair_append {p q : Char → Bool} {xs ys : List Char}
    (h : hasPair p q (xs ++ ys) = false) :
    hasPair p q ys = false ∧ ∀ x ∈ xs.getLast?, ∀ y ∈ ys.head?, (p x && q y) = false := by
  induction xs with
  | nil =>
      refine ⟨h, ?_⟩
      rintro x ⟨⟩
  | cons x xs ih =>
      cases xs with
      | nil =>
          cases ys with
          | nil =>
              refine ⟨rfl, ?_⟩
              rintro _ _ y ⟨⟩
          | cons y ys =>
              rw [List.cons_append, List.nil_append, hasPair, Bool.or_eq_false_iff] at h
              refine ⟨h.2, ?_⟩
              rintro _ ⟨⟩ _ ⟨⟩
              exact h.1
      | cons x' xs =>
          rw [List.cons_append, List.cons_append, hasPair, Bool.or_eq_false_iff] at h
          exact ih h.2

theorem wordsBetween_of_isRuns : ∀ {rs : List (Piece × List Char)}, IsRuns Piece.of rs →
    hasPair isKeptBreak (· == ' ') (rs.flatMap (·.2)) = false →
      hasPair (· == ' ') isKeptBreak (rs.flatMap (·.2)) = false → WordsBetween rs
  | [], _, _, _ => trivial
  | [_], _, _, _ => trivial
  | (kind, run) :: (kind', run') :: rest, hruns, hbreaks, hblanks => by
      rcases hruns with ⟨hrun, hkind, hnext, hrest⟩
      rw [List.flatMap_cons] at hbreaks hblanks
      have hbreaks' := hasPair_append hbreaks
      have hblanks' := hasPair_append hblanks
      refine ⟨?_, wordsBetween_of_isRuns hrest hbreaks'.1 hblanks'.1⟩
      have hlast : run.getLast hrun ∈ run.getLast? := List.getLast?_eq_some_getLast hrun
      have hkind := hkind _ (List.getLast_mem hrun)
      have hhead : run'.head hrest.1 ∈ (((kind', run') :: rest).flatMap (·.2)).head? := by
        rw [List.flatMap_cons, List.head?_append, List.head?_eq_some_head hrest.1]
        rfl
      have hkind' := hrest.2.1 _ (List.head_mem hrest.1)
      have hne : kind' ≠ kind := hnext _ rfl
      have hfirst := hbreaks'.2 _ hlast _ hhead
      have hsecond := hblanks'.2 _ hlast _ hhead
      cases kind with
      | word => exact Or.inl rfl
      | blanks =>
          cases kind' with
          | word => exact Or.inr rfl
          | blanks => exact absurd rfl hne
          | breaks =>
              rw [Piece.of_eq_blanks hkind, Piece.of_eq_breaks hkind'] at hsecond
              cases hsecond
      | breaks =>
          cases kind' with
          | word => exact Or.inr rfl
          | blanks =>
              rw [Piece.of_eq_blanks hkind', Piece.of_eq_breaks hkind] at hfirst
              cases hfirst
          | breaks => exact absurd rfl hne

/-!
## Spelling the runs
-/

def singleChar (c : Char) : List Char :=
  if c == '\'' then ['\'', '\''] else [c]

def rereadBreaks (run : List Char) : List Char :=
  readBreaks (if run.head? == some '\n' then '\n' :: run else run)

def rereadRun (r : Piece × List Char) : List Char :=
  match r.1 with
  | .breaks => rereadBreaks r.2
  | _ => r.2

theorem spells_word {word inner cs : List Char} (hword : ∀ c ∈ word, Piece.of c = .word)
    (hescape : ∀ c ∈ word, needsEscape c = false) (h : Spells false inner cs) :
    Spells false (word.flatMap singleChar ++ inner) (word ++ cs) := by
  induction word with
  | nil => exact h
  | cons c word ih =>
      have ih := ih (fun d hd => hword d (List.mem_cons_of_mem _ hd))
        (fun d hd => hescape d (List.mem_cons_of_mem _ hd))
      have hc := Piece.of_eq_word (hword c List.mem_cons_self)
      have hspace := isSpaceOrEnd_eq_false hc.1 hc.2 (hescape c List.mem_cons_self)
      rw [List.flatMap_cons, List.append_assoc, singleChar]
      split
      next hquote =>
        rw [beq_iff_eq] at hquote
        subst hquote
        exact .quote rfl ih
      next hquote =>
        exact .char (fun heq => hquote (beq_iff_eq.mpr heq)) (fun h => nomatch h) hspace ih

theorem endsSpace_word {word inner : List Char} (hne : word ≠ [])
    (hword : ∀ c ∈ word, Piece.of c = .word) (hescape : ∀ c ∈ word, needsEscape c = false) :
    EndsSpace (word.flatMap singleChar ++ inner) := by
  cases word with
  | nil => exact absurd rfl hne
  | cons c word =>
      have hc := Piece.of_eq_word (hword c List.mem_cons_self)
      have hspace := isSpaceOrEnd_eq_false hc.1 hc.2 (hescape c List.mem_cons_self)
      rw [List.flatMap_cons, singleChar]
      intro d hd
      split at hd
      · cases hd
        rfl
      · cases hd
        exact hspace

theorem singleChar_blanks {blanks cs : List Char} (h : ∀ c ∈ blanks, c = ' ') :
    (blanks ++ cs).flatMap singleChar = blanks ++ cs.flatMap singleChar := by
  induction blanks with
  | nil => rfl
  | cons b blanks ih =>
      rw [List.cons_append, List.flatMap_cons, ih fun d hd => h d (List.mem_cons_of_mem _ hd),
        h b List.mem_cons_self]
      rfl

theorem length_le_flatMap_singleChar (cs : List Char) :
    cs.length ≤ (cs.flatMap singleChar).length := by
  induction cs with
  | nil => exact Nat.le_refl _
  | cons c cs ih =>
      rw [List.flatMap_cons, List.length_append, List.length_cons, singleChar]
      split <;> simp only [List.length_cons, List.length_nil] <;> omega

theorem spells_blanks {double : Bool} {blanks inner cs : List Char}
    (hblanks : ∀ c ∈ blanks, c = ' ') (hends : EndsSpace inner) (h : Spells double inner cs) :
    Spells double (blanks ++ inner) (blanks ++ cs) := by
  induction blanks with
  | nil => exact h
  | cons b blanks ih =>
      have ih := ih fun d hd => hblanks d (List.mem_cons_of_mem _ hd)
      rw [hblanks b List.mem_cons_self]
      refine .blank ?_ ih
      intro d hd
      cases blanks with
      | nil => exact Or.inr (hends d hd)
      | cons b' blanks =>
          cases hd
          exact Or.inl (hblanks _ (List.mem_cons_of_mem _ List.mem_cons_self))

theorem foldl_breakWith {run : List Char} (hne : run ≠ []) (p : Pen) :
    run.foldl breakWith p = ⟨run.reverse ++ p.written, 0, true, true⟩ := by
  induction run generalizing p with
  | nil => exact absurd rfl hne
  | cons b run ih =>
      cases run with
      | nil => rfl
      | cons b' run =>
          rw [List.foldl_cons, ih (List.cons_ne_nil _ _)]
          simp [breakWith]

theorem quotedBreaks_written {run : List Char} (hne : run ≠ []) {indent : Nat}
    (hindent : 0 < indent) (p : Pen) :
    p.quotedBreaks indent run =
      ⟨((if run.head? == some '\n' then '\n' :: run else run)
        ++ List.replicate indent ' ').reverse ++ p.written, indent, true, true⟩ := by
  rw [Pen.quotedBreaks, foldl_breakWith hne, indentTo_blanks rfl hindent]
  split <;> simp [newLine, breakWith]

theorem head_word_of_wordsBetween {kind : Piece} {run : List Char} {rest : List (Piece × List Char)}
    (h : WordsBetween ((kind, run) :: rest)) (hkind : kind ≠ .word) :
    ∀ r ∈ rest.head?, r.1 = .word := by
  cases rest with
  | nil =>
      rintro r ⟨⟩
  | cons r rest =>
      rintro _ ⟨⟩
      exact h.1.resolve_left hkind

theorem wordsBetween_tail {r : Piece × List Char} {rest : List (Piece × List Char)}
    (h : WordsBetween (r :: rest)) : WordsBetween rest := by
  cases rest with
  | nil => trivial
  | cons r' rest => exact h.2

/-- What is written between two pens spells the runs of a text as they are read.  If no line ends,
it is the text with its quotes written twice. -/
def WritesRuns (split : Bool) (rs : List (Piece × List Char)) (p q : Pen) : Prop :=
  ∃ inner, Spells false inner (rs.flatMap rereadRun)
    ∧ q.written = inner.reverse ++ p.written
    ∧ ((∀ r ∈ rs.head?, r.1 = .word) → EndsSpace inner)
    ∧ (split = false → (∀ r ∈ rs, r.1 ≠ .breaks) →
      inner = (rs.flatMap (·.2)).flatMap singleChar ∧ q.column = p.column + inner.length)

namespace WritesRuns

variable {split : Bool} {indent : Nat} {run : List Char} {rest : List (Piece × List Char)}
  {p q : Pen}

theorem nil (split : Bool) (p : Pen) : WritesRuns split [] p p := by
  refine ⟨[], .nil, rfl, ?_, fun _ _ => ⟨rfl, rfl⟩⟩
  rintro _ c ⟨⟩

theorem word (hrun : run ≠ []) (hkinds : ∀ c ∈ run, Piece.of c = .word)
    (hescape : ∀ c ∈ run, needsEscape c = false)
    (h : WritesRuns split rest (p.put (run.flatMap singleChar)) q) :
    WritesRuns split ((.word, run) :: rest) p q := by
  rcases h with ⟨inner, hspells, hwritten, _, hline⟩
  refine ⟨run.flatMap singleChar ++ inner, spells_word hkinds hescape hspells, ?_,
    fun _ => endsSpace_word hrun hkinds hescape, ?_⟩
  · rw [hwritten]
    simp
  · intro hsplit hbreaks
    rcases hline hsplit fun r hr => hbreaks r (List.mem_cons_of_mem _ hr) with ⟨rfl, hcolumn⟩
    refine ⟨by simp, ?_⟩
    rw [hcolumn, column_put, List.length_append, Nat.add_assoc]

theorem fold (hindent : 0 < indent) (hready : p.inIndent = false ∨ indent < p.column)
    (hhead : ∀ r ∈ rest.head?, r.1 = .word) (h : WritesRuns true rest (p.indentTo indent) q) :
    WritesRuns true ((.blanks, [' ']) :: rest) p q := by
  rcases h with ⟨inner, hspells, hwritten, hends, _⟩
  rw [indentTo_newLine hready] at hwritten
  refine ⟨_, .breaks (List.cons_ne_nil '\n' []) isKeptBreak_of_mem_lineFeed hindent (hends hhead)
    hspells, ?_, ?_, ?_⟩
  · rw [hwritten]
    simp [lineStart]
  · intro hword
    exact absurd (hword _ rfl) (by rintro ⟨⟩)
  · intro hsplit
    cases hsplit

theorem blanks (hblanks : ∀ c ∈ run, c = ' ') (hhead : ∀ r ∈ rest.head?, r.1 = .word)
    (h : WritesRuns split rest (p.put run) q) :
    WritesRuns split ((.blanks, run) :: rest) p q := by
  rcases h with ⟨inner, hspells, hwritten, hends, hline⟩
  refine ⟨run ++ inner, spells_blanks hblanks (hends hhead) hspells, ?_, ?_, ?_⟩
  · rw [hwritten]
    simp
  · intro hword
    exact absurd (hword _ rfl) (by rintro ⟨⟩)
  · intro hsplit hbreaks
    rcases hline hsplit fun r hr => hbreaks r (List.mem_cons_of_mem _ hr) with ⟨rfl, hcolumn⟩
    rw [List.flatMap_cons, singleChar_blanks hblanks, hcolumn, column_put, List.length_append]
    exact ⟨rfl, Nat.add_assoc _ _ _⟩

theorem breaks (hrun : run ≠ []) (hkinds : ∀ c ∈ run, isKeptBreak c = true)
    (hindent : 0 < indent) (hhead : ∀ r ∈ rest.head?, r.1 = .word)
    (h : WritesRuns split rest (p.quotedBreaks indent run) q) :
    WritesRuns split ((.breaks, run) :: rest) p q := by
  rcases h with ⟨inner, hspells, hwritten, hends, _⟩
  rw [quotedBreaks_written hrun hindent] at hwritten
  refine ⟨_, .breaks ?_ ?_ hindent (hends hhead) hspells, ?_, ?_, ?_⟩
  · split
    · exact List.cons_ne_nil _ _
    · exact hrun
  · intro c hc
    split at hc
    · rcases List.mem_cons.mp hc with rfl | hc
      · rfl
      · exact hkinds c hc
    · exact hkinds c hc
  · rw [hwritten]
    simp
  · intro hword
    exact absurd (hword _ rfl) (by rintro ⟨⟩)
  · intro _ hbreaks
    exact absurd rfl (hbreaks _ List.mem_cons_self)

end WritesRuns

/-- What is written for the runs of a text spells the text as it is read. -/
theorem singlePieces_written {rs : List (Piece × List Char)} (hruns : IsRuns Piece.of rs)
    (hbetween : WordsBetween rs) (hescape : ∀ c ∈ rs.flatMap (·.2), needsEscape c = false)
    (split : Bool) {indent : Nat} (hindent : 0 < indent) (isFirst : Bool) {p : Pen}
    (hp : p.inIndent = false ∨ indent < p.column
      ∨ (indent ≤ p.column ∧ ∀ r ∈ rs.head?, r.1 = .word)) :
    WritesRuns split rs p (singlePieces split indent isFirst rs p) := by
  induction rs generalizing isFirst p with
  | nil => exact .nil split p
  | cons r rest ih =>
      rcases r with ⟨kind, run⟩
      rcases hruns with ⟨hrun, hkinds, _, hrest⟩
      rw [List.flatMap_cons] at hescape
      have ih := @ih hrest (wordsBetween_tail hbetween)
        (fun c hc => hescape c (List.mem_append_right _ hc)) false
      cases kind with
      | word =>
          have hlength := length_le_flatMap_singleChar run
          have hpos := List.length_pos_iff.mpr hrun
          have hready : (p.put (run.flatMap singleChar)).inIndent = false
              ∨ indent < (p.put (run.flatMap singleChar)).column := by
            rw [inIndent_put, column_put]
            rcases hp with hp | hp | hp
            · exact Or.inl hp
            · exact Or.inr (by omega)
            · exact Or.inr (by omega)
          exact .word hrun hkinds (fun c hc => hescape c (List.mem_append_left _ hc))
            (ih (hready.imp_right Or.inl))
      | blanks =>
          have hblanks := fun c hc => Piece.of_eq_blanks (hkinds c hc)
          have hhead := head_word_of_wordsBetween hbetween (by rintro ⟨⟩)
          have hready : p.inIndent = false ∨ indent < p.column := by
            rcases hp with hp | hp | hp
            · exact Or.inl hp
            · exact Or.inr hp
            · exact absurd (hp.2 _ rfl) (by rintro ⟨⟩)
          rw [singlePieces]
          split
          case isTrue hfold =>
            simp only [Bool.and_eq_true, beq_iff_eq] at hfold
            rcases hfold with ⟨⟨⟨⟨hlength, rfl⟩, _⟩, _⟩, _⟩
            rcases List.length_eq_one_iff.mp hlength with ⟨b, rfl⟩
            obtain rfl : b = ' ' := hblanks b List.mem_cons_self
            refine .fold hindent hready hhead ?_
            rw [indentTo_newLine hready]
            exact ih (Or.inr (Or.inr ⟨Nat.le_refl _, hhead⟩))
          case isFalse =>
            have hready' : (p.put run).inIndent = false ∨ indent < (p.put run).column := by
              rw [inIndent_put, column_put]
              exact hready.imp_right fun h => Nat.lt_add_right _ h
            exact .blanks hblanks hhead (ih (hready'.imp_right Or.inl))
      | breaks =>
          have hhead := head_word_of_wordsBetween hbetween (by rintro ⟨⟩)
          rw [singlePieces]
          refine .breaks hrun (fun c hc => Piece.of_eq_breaks (hkinds c hc)) hindent hhead ?_
          rw [quotedBreaks_written hrun hindent]
          exact ih (Or.inr (Or.inr ⟨Nat.le_refl _, hhead⟩))

/-!
## A whole text
-/

def rereadSingle (cs : List Char) : List Char :=
  (runs Piece.of cs).flatMap rereadRun

def Pen.lead (p : Pen) : List Char :=
  if p.afterSpace then [] else [' ']

theorem Pen.sign_quote (p : Pen) (cs : List Char) :
    p.sign cs true false =
      ⟨(p.lead ++ cs).reverse ++ p.written, p.column + (p.lead ++ cs).length, false, false⟩ := by
  rw [sign, lead]
  cases p.afterSpace <;> simp [put]

theorem Pen.sign_close (p : Pen) (cs : List Char) (counts : Bool) :
    p.sign cs false counts =
      ⟨cs.reverse ++ p.written, p.column + cs.length, false, p.inIndent && counts⟩ := by
  rw [sign]
  cases p.afterSpace <;> simp [put]

theorem single_written {cs : List Char} (h : Style.allowsSingle cs = true) (split : Bool)
    {indent : Nat} (hindent : 0 < indent) (p : Pen) :
    ∃ inner, Spells false inner (rereadSingle cs)
      ∧ (p.single split indent cs).written =
        (p.lead ++ '\'' :: (inner ++ ['\''])).reverse ++ p.written
      ∧ (p.single split indent cs).inIndent = false
      ∧ (p.single split indent cs).afterSpace = false
      ∧ (split = false → cs.any isKeptBreak = false → inner = cs.flatMap singleChar
        ∧ (p.single split indent cs).column =
          p.column + (p.lead ++ '\'' :: (inner ++ ['\''])).length) := by
  simp only [Style.allowsSingle, Bool.not_eq_true', Bool.or_eq_false_iff, List.any_eq_false] at h
  rcases h with ⟨⟨hbreaks, hblanks⟩, hescape⟩
  have hruns := isRuns_runs Piece.of cs
  have hbetween := wordsBetween_of_isRuns hruns (by rw [flatMap_runs]; exact hbreaks)
    (by rw [flatMap_runs]; exact hblanks)
  rcases singlePieces_written hruns hbetween
    (fun c hc => by rw [flatMap_runs] at hc; exact Bool.not_eq_true _ ▸ hescape c hc) split hindent
    true (p := p.sign ['\''] true false) (Or.inl (by rw [sign_quote])) with
    ⟨inner, hspells, hwritten, _, hline⟩
  rw [single, sign_close]
  refine ⟨inner, hspells, ?_, Bool.and_false _, rfl, ?_⟩
  · rw [hwritten, sign_quote]
    simp
  · intro hsplit hkept
    rw [List.any_eq_false] at hkept
    have hno : ∀ r ∈ runs Piece.of cs, r.1 ≠ .breaks := by
      intro r hr
      have hr' := hruns.of_mem r hr
      refine Piece.ne_breaks hr'.1 hr'.2 fun c hc => Bool.not_eq_true _ ▸ hkept c ?_
      rw [← flatMap_runs Piece.of cs]
      exact List.mem_flatMap.mpr ⟨r, hr, hc⟩
    rcases hline hsplit hno with ⟨hinner, hcolumn⟩
    rw [flatMap_runs] at hinner
    refine ⟨hinner, ?_⟩
    rw [hcolumn, sign_quote]
    simp only [List.length_append, List.length_cons, List.length_nil]
    omega

theorem readBreak_ne (c : Char) : (readBreak c).toNat ≠ 0x85 := by
  rw [readBreak]
  split
  · decide
  next h =>
    rw [Bool.or_eq_true, not_or] at h
    exact fun heq => h.2 (beq_iff_eq.mpr heq)

theorem readBreak_eq_self {c : Char} (h : c.toNat ≠ 0x85) : readBreak c = c := by
  rw [readBreak, beq_false_of_ne h, Bool.or_false]
  split
  next hfeed => exact (beq_iff_eq.mp hfeed).symm
  next => rfl

theorem map_readBreak {cs : List Char} (h : ∀ c ∈ cs, c.toNat ≠ 0x85) :
    cs.map readBreak = cs := by
  rw [List.map_congr_left fun c hc => readBreak_eq_self (h c hc), List.map_id']

theorem readBreaks_ne (run : List Char) : ∀ c ∈ readBreaks run, c.toNat ≠ 0x85 := by
  cases run with
  | nil =>
      rintro c ⟨⟩
  | cons b run =>
      have hmap : ∀ c ∈ run.map readBreak, c.toNat ≠ 0x85 := by
        intro c hc
        rcases List.mem_map.mp hc with ⟨d, _, rfl⟩
        exact readBreak_ne d
      rw [readBreaks, foldBreaks]
      intro c hc
      split at hc
      · rcases List.mem_append.mp hc with hc | hc
        · rw [List.mem_singleton.mp hc]
          exact readBreak_ne b
        · exact hmap c hc
      · split at hc
        · rw [List.mem_singleton.mp hc]
          decide
        · exact hmap c hc

theorem rereadBreaks_eq_self {run : List Char} (h : ∀ c ∈ run, c.toNat ≠ 0x85) :
    rereadBreaks run = run := by
  cases run with
  | nil => rfl
  | cons b run =>
      have hmap := map_readBreak h
      by_cases hfeed : b = '\n'
      · subst hfeed
        show foldBreaks ['\n'] (('\n' :: run).map readBreak) = _
        rw [hmap]
        rfl
      · have hhead : ((b :: run).head? == some '\n') = false := by
          simpa using hfeed
        rw [rereadBreaks, hhead, if_neg Bool.false_ne_true, readBreaks, foldBreaks,
          readBreak_eq_self (h b List.mem_cons_self),
          map_readBreak fun c hc => h c (List.mem_cons_of_mem _ hc)]
        simp [hfeed]

/-- Of the texts that may stand between single quotes those are read as they are that do not
contain a next line. -/
theorem rereadSingle_eq_self_iff (cs : List Char) :
    rereadSingle cs = cs ↔ ∀ c ∈ cs, c.toNat ≠ 0x85 := by
  have hruns := isRuns_runs Piece.of cs
  constructor
  · intro heq c hc
    rw [← heq] at hc
    rcases List.mem_flatMap.mp hc with ⟨⟨kind, run⟩, hr, hc⟩
    have hkind := (hruns.of_mem _ hr).2 c
    cases kind with
    | word =>
        intro hcode
        have hkept := (Piece.of_eq_word (hkind hc)).2
        rw [isKeptBreak, hcode] at hkept
        simp at hkept
    | blanks =>
        rw [Piece.of_eq_blanks (hkind hc)]
        decide
    | breaks => exact readBreaks_ne _ c hc
  · intro h
    have hmap : ∀ r ∈ runs Piece.of cs, rereadRun r = r.2 := by
      rintro ⟨kind, run⟩ hr
      cases kind with
      | word => rfl
      | blanks => rfl
      | breaks =>
          refine rereadBreaks_eq_self fun c hc => h c ?_
          rw [← flatMap_runs Piece.of cs]
          exact List.mem_flatMap.mpr ⟨_, hr, hc⟩
    rw [rereadSingle, List.flatMap_def, List.map_congr_left hmap, ← List.flatMap_def, flatMap_runs]

theorem foldBreaks_ne_nil {lineBreak : List Char} (h : lineBreak ≠ []) (breaks : List Char) :
    foldBreaks lineBreak breaks ≠ [] := by
  rw [foldBreaks]
  split
  · exact List.append_ne_nil_of_left_ne_nil h breaks
  · split
    · exact List.cons_ne_nil _ _
    next hbreaks => exact fun hnil => hbreaks (by rw [hnil]; rfl)

theorem rereadRun_ne_nil {r : Piece × List Char} (h : r.2 ≠ []) : rereadRun r ≠ [] := by
  rcases r with ⟨kind, run⟩
  cases kind with
  | word => exact h
  | blanks => exact h
  | breaks =>
      cases run with
      | nil => exact absurd rfl h
      | cons b run =>
          show readBreaks _ ≠ []
          split <;> exact foldBreaks_ne_nil (List.cons_ne_nil _ _) _

theorem rereadSingle_ne_nil {cs : List Char} (h : cs ≠ []) : rereadSingle cs ≠ [] := by
  have hruns := isRuns_runs Piece.of cs
  intro hnil
  rw [rereadSingle, List.flatMap_eq_nil_iff] at hnil
  have hno : runs Piece.of cs = [] := by
    rw [List.eq_nil_iff_forall_not_mem]
    intro r hr
    exact rereadRun_ne_nil (hruns.of_mem r hr).1 (hnil r hr)
  have hcs := flatMap_runs Piece.of cs
  rw [hno] at hcs
  exact h hcs.symm

end Yaml
end TextMate
