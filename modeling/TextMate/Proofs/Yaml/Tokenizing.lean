import TextMate.Proofs.Yaml.Reading
import TextMate.Proofs.Yaml.Run
import TextMate.Proofs.Yaml.Scanning

/-!
# Tokens of any text

Whatever the text, a token takes at least one character, unless it is the end of
the text.  So reading either fails or gets to the end, and then the last token
says so.
-/

namespace TextMate
namespace Yaml

namespace Lexer

/-- What is done in front of a token: nothing is read, no bracket is opened or closed, and no token
gets lost. -/
structure Prepares (l l' : Lexer) : Prop where
  cursor : l'.cursor = l.cursor
  level : l'.level = l.level
  tokens : l.tokens.length ≤ l'.tokens.length
  done : l'.done = l.done

/-- What a token does: its characters are read, and no token gets lost. -/
structure Consumes (l l' : Lexer) : Prop where
  rest : l'.cursor.rest <:+ l.cursor.next.rest
  tokens : l.tokens.length ≤ l'.tokens.length
  done : l'.done = l.done

/-- What the end of the text does: it is the last token, and not the only one. -/
structure Ended (l : Lexer) : Prop where
  done : l.done = true
  last : ∃ token tokens, l.tokens = token :: tokens ∧ token.kind = .streamEnd ∧ tokens ≠ []

theorem Prepares.refl (l : Lexer) : Prepares l l :=
  ⟨rfl, rfl, Nat.le_refl _, rfl⟩

theorem Prepares.trans {a b c : Lexer} (h : Prepares a b) (h' : Prepares b c) : Prepares a c :=
  ⟨h'.cursor.trans h.cursor, h'.level.trans h.level, Nat.le_trans h.tokens h'.tokens,
    h'.done.trans h.done⟩

theorem Prepares.consumes {a b c : Lexer} (h : Prepares a b) (h' : Consumes b c) :
    Consumes a c :=
  ⟨h.cursor ▸ h'.rest, Nat.le_trans h.tokens h'.tokens, h'.done.trans h.done⟩

theorem prepares_push (l : Lexer) (kind : TokenKind) (start stop : Mark) :
    Prepares l (l.push kind start stop) :=
  ⟨rfl, rfl, Nat.le_succ _, rfl⟩

theorem prepares_insert (l : Lexer) (number : Nat) (kind : TokenKind) (mark : Mark) :
    Prepares l (l.insert number kind mark) := by
  refine ⟨rfl, rfl, ?_, rfl⟩
  show l.tokens.length ≤ (l.tokens.take _ ++ _ :: l.tokens.drop _).length
  rw [List.length_append, List.length_cons, Nat.add_succ, ← List.length_append,
    List.take_append_drop]
  exact Nat.le_succ _

theorem prepares_beginBlock (l : Lexer) (column : Nat) : Prepares l (l.beginBlock column).1 := by
  unfold beginBlock
  split
  · exact ⟨rfl, rfl, Nat.le_refl _, rfl⟩
  · exact Prepares.refl l

theorem prepares_unwind (column : Int) (outers : List Int) (l : Lexer) :
    Prepares l (unwind column outers l) := by
  induction outers generalizing l with
  | nil => exact Prepares.refl l
  | cons outer outers ih =>
      rw [unwind]
      split
      · dsimp only
        refine Prepares.trans ?_ (ih _)
        exact ⟨rfl, rfl, Nat.le_succ _, rfl⟩
      · exact Prepares.refl l

theorem prepares_unwindTo (l : Lexer) (column : Int) : Prepares l (l.unwindTo column) := by
  unfold unwindTo
  split
  · exact Prepares.refl l
  · exact prepares_unwind column l.indents l

section Concludes

variable {cs : List Char}

theorem concludes_dropKey (l : Lexer) : Concludes (Stops cs) (Prepares l) l.dropKey := by
  unfold dropKey
  split
  · exact concludes_error (formlessFor_flaw _)
  · exact ⟨rfl, rfl, Nat.le_refl _, rfl⟩

theorem concludes_saveKey (l : Lexer) : Concludes (Stops cs) (Prepares l) l.saveKey := by
  rw [saveKey]
  dsimp only
  split
  · exact Prepares.refl l
  · exact (concludes_dropKey l).bind fun l' hl' =>
      ⟨hl'.cursor, hl'.level, hl'.tokens, hl'.done⟩

theorem concludes_beginBlockHere (l : Lexer) (kind : TokenKind) (refusal : Problem) :
    Concludes (Stops cs) (Prepares l) (l.beginBlockHere kind refusal) := by
  rw [beginBlockHere]
  dsimp only
  split
  · exact Prepares.refl l
  · refine concludes_require (formlessFor_flaw _) fun _ => ?_
    have hbegin := prepares_beginBlock l l.cursor.mark.column
    show Prepares l (if (l.beginBlock _).2 then (l.beginBlock _).1.push kind _ _
      else (l.beginBlock _).1)
    split
    · exact hbegin.trans (prepares_push _ _ _ _)
    · exact hbegin

theorem concludes_prepared {l : Lexer} {prepare : Except Fault Lexer}
    {read : Lexer → Except Fault Lexer} (h : Concludes (Stops cs) (Prepares l) prepare)
    (hread : ∀ l', Prepares l l' → Concludes (Stops cs) (Consumes l') (read l')) :
    Concludes (Stops cs) (Consumes l) (prepare >>= read) :=
  h.bind fun l' hl' => (hread l' hl').mono fun _ hconsumes => hl'.consumes hconsumes

theorem concludes_streamEnd {l : Lexer} (htokens : l.tokens ≠ []) :
    Concludes (Stops cs) Ended l.streamEnd := by
  rw [streamEnd]
  refine (concludes_dropKey (l.unwindTo (-1))).bind fun l' hl' => ?_
  refine ⟨rfl, _, l'.tokens, rfl, rfl, ?_⟩
  have hlength := ((prepares_unwindTo l (-1)).trans hl').tokens
  intro hnil
  rw [hnil] at hlength
  exact htokens (List.eq_nil_of_length_eq_zero (Nat.le_zero.mp hlength))

theorem concludes_directive (l : Lexer) : Concludes (Stops cs) (Consumes l) l.directive := by
  rw [directive]
  have hunwind := prepares_unwindTo l (-1)
  refine concludes_prepared ((concludes_dropKey _).mono fun _ => hunwind.trans) fun l' _ => ?_
  refine Concludes.bind (scans_directive l'.cursor) fun r hr => ?_
  exact ⟨hr, Nat.le_succ _, rfl⟩

theorem concludes_documentBorder (l : Lexer) (kind : TokenKind) :
    Concludes (Stops cs) (Consumes l) (l.documentBorder kind) := by
  rw [documentBorder]
  have hunwind := prepares_unwindTo l (-1)
  refine concludes_prepared ((concludes_dropKey _).mono fun _ => hunwind.trans) fun l' _ => ?_
  exact ⟨Cursor.suffix_skip 2 _, Nat.le_succ _, rfl⟩

theorem concludes_openFlow (l : Lexer) (kind : TokenKind) :
    Concludes (Stops cs) (Consumes l) (l.openFlow kind) :=
  concludes_prepared (concludes_saveKey l) fun _ _ => ⟨List.suffix_refl _, Nat.le_succ _, rfl⟩

theorem concludes_closeFlow (l : Lexer) (kind : TokenKind) :
    Concludes (Stops cs) (Consumes l) (l.closeFlow kind) :=
  concludes_prepared (concludes_dropKey l) fun _ _ => ⟨List.suffix_refl _, Nat.le_succ _, rfl⟩

theorem concludes_flowEntry (l : Lexer) : Concludes (Stops cs) (Consumes l) l.flowEntry :=
  concludes_prepared (concludes_dropKey l) fun _ _ => ⟨List.suffix_refl _, Nat.le_succ _, rfl⟩

/-- A sign in a block: a collection may begin, and the sign drops the key in front of it. -/
theorem concludes_sign (l : Lexer) (kind : TokenKind) (refusal : Problem)
    {read : Lexer → Except Fault Lexer}
    (hread : ∀ l', Concludes (Stops cs) (Consumes l') (read l')) :
    Concludes (Stops cs) (Consumes l) (do read (← (← l.beginBlockHere kind refusal).dropKey)) :=
  concludes_prepared (concludes_beginBlockHere l kind refusal) fun l' _ =>
    concludes_prepared (concludes_dropKey l') fun l'' _ => hread l''

theorem concludes_blockEntry (l : Lexer) : Concludes (Stops cs) (Consumes l) l.blockEntry :=
  concludes_sign l _ _ fun _ => ⟨List.suffix_refl _, Nat.le_succ _, rfl⟩

theorem concludes_key (l : Lexer) : Concludes (Stops cs) (Consumes l) l.key :=
  concludes_sign l _ _ fun _ => ⟨List.suffix_refl _, Nat.le_succ _, rfl⟩

theorem concludes_value (l : Lexer) : Concludes (Stops cs) (Consumes l) l.value := by
  rw [value]
  split
  next key _ =>
    dsimp only
    generalize hforgotten : { l with keys := l.keys.filter fun k => k.level != l.level } = l₁
    have hl₁ : Prepares l l₁ := by
      rw [← hforgotten]
      exact ⟨rfl, rfl, Nat.le_refl _, rfl⟩
    have hl₂ := hl₁.trans (prepares_insert l₁ key.number .key key.mark)
    generalize l₁.insert key.number .key key.mark = l₂ at hl₂ ⊢
    have hl₃ : Prepares l (if l₂.inFlow then (l₂, false)
        else l₂.beginBlock key.mark.column).1 := by
      split
      · exact hl₂
      · exact hl₂.trans (prepares_beginBlock l₂ _)
    generalize (if l₂.inFlow then (l₂, false) else l₂.beginBlock key.mark.column) = l₃ at hl₃ ⊢
    have hl₄ : Prepares l (if l₃.2 then l₃.1.insert key.number .blockMappingStart key.mark
        else l₃.1) := by
      split
      · exact hl₃.trans (prepares_insert _ _ _ _)
      · exact hl₃
    exact hl₄.consumes ⟨List.suffix_refl _, Nat.le_succ _, rfl⟩
  next => exact concludes_sign l _ _ fun _ => ⟨List.suffix_refl _, Nat.le_succ _, rfl⟩

theorem concludes_anchor (l : Lexer) (isAlias : Bool) :
    Concludes (Stops cs) (Consumes l) (l.anchor isAlias) :=
  concludes_prepared (concludes_saveKey l) fun l' _ =>
    Concludes.bind (scans_anchorName isAlias l'.cursor) fun _ hr => ⟨hr, Nat.le_succ _, rfl⟩

theorem concludes_tag (l : Lexer) : Concludes (Stops cs) (Consumes l) l.tag :=
  concludes_prepared (concludes_saveKey l) fun l' _ =>
    Concludes.bind (scans_tag l'.cursor) fun _ hr => ⟨hr, Nat.le_succ _, rfl⟩

theorem concludes_blockScalar (l : Lexer) (folded : Bool) :
    Concludes (Stops cs) (Consumes l) (l.blockScalar folded) :=
  concludes_prepared (concludes_dropKey l) fun l' _ =>
    Concludes.bind (scans_blockScalar l'.cursor) fun _ hr => ⟨hr, Nat.le_succ _, rfl⟩

theorem concludes_quotedScalar {l : Lexer} (hl : l.cursor.rest <:+ cs) (double : Bool) :
    Concludes (Stops cs) (Consumes l) (l.quotedScalar double) :=
  concludes_prepared (concludes_saveKey l) fun _ hl' =>
    Concludes.bind (scans_quoted (hl'.cursor ▸ hl)) fun _ hr => ⟨hr, Nat.le_succ _, rfl⟩

theorem plainLength_of_startsPlain {inFlow : Bool} {ch next : Char} {rest : List Char}
    (h : startsPlain inFlow ch next = true) (hnext : rest.headD endMark = next) :
    ch ≠ '#' ∧ plainLength inFlow (ch :: rest) ≠ 0 := by
  subst hnext
  rw [plainLength]
  generalize rest.headD endMark = next at h
  rw [startsPlain, Bool.or_eq_true] at h
  rcases h with hother | hsign
  · simp only [Bool.not_eq_true', Bool.or_eq_false_iff] at hother
    simp [hother.1] at hother ⊢
    simp [hother]
  · simp only [Bool.and_eq_true, Bool.or_eq_true, beq_iff_eq, Bool.not_eq_true'] at hsign
    rcases hsign with ⟨hnext, rfl | ⟨hflow, rfl | rfl⟩⟩
    · simp [show isSpaceOrEnd '-' = false from rfl]
    · simp [hflow, show isSpaceOrEnd '?' = false from rfl]
    · simp [hnext, hflow, show isSpaceOrEnd ':' = false from rfl]

theorem concludes_plainScalar {l : Lexer} (hend : l.cursor.peek ≠ endMark)
    (hplain : startsPlain l.inFlow l.cursor.peek (l.cursor.peekAt 1) = true) :
    Concludes (Stops cs) (Consumes l) l.plainScalar := by
  refine concludes_prepared (concludes_saveKey l) fun l' hl' => ?_
  have hflow : l'.inFlow = l.inFlow := by
    rw [inFlow, inFlow, hl'.level]
  have hrest := Cursor.rest_eq_cons rfl hend
  have hnext : l.cursor.next.rest.headD endMark = l.cursor.peekAt 1 := by
    rw [Cursor.peekAt, hrest]
    cases l.cursor.next.rest with
    | nil => rfl
    | cons ch rest => rfl
  rcases plainLength_of_startsPlain hplain hnext with ⟨hsharp, hlength⟩
  rw [← hrest, ← hflow, ← hl'.cursor] at hlength
  rw [← hl'.cursor] at hsharp
  exact ⟨suffix_plain hsharp hlength, Nat.le_succ _, rfl⟩

theorem concludes_token {l : Lexer} (hl : l.cursor.rest <:+ cs) (htokens : l.tokens ≠ []) :
    Concludes (Stops cs) (fun l' => Ended l' ∨ (l.cursor.rest ≠ [] ∧ Consumes l l')) l.token := by
  refine concludes_ite ?_ ?_
  · intro _
    exact (concludes_streamEnd htokens).mono fun _ => Or.inl
  · intro hend
    have hend : l.cursor.peek ≠ endMark := fun heq => hend (beq_iff_eq.mpr heq)
    have hrest : l.cursor.rest ≠ [] := by
      rw [Cursor.rest_eq_cons rfl hend]
      exact List.cons_ne_nil _ _
    refine Concludes.mono (?_ : Concludes _ (Consumes l) _) fun _ h => Or.inr ⟨hrest, h⟩
    refine concludes_ite (fun _ => concludes_directive l) fun _ => ?_
    refine concludes_ite (fun _ => concludes_documentBorder l _) fun _ => ?_
    refine concludes_ite (fun _ => concludes_documentBorder l _) fun _ => ?_
    refine concludes_ite (fun _ => concludes_openFlow l _) fun _ => ?_
    refine concludes_ite (fun _ => concludes_openFlow l _) fun _ => ?_
    refine concludes_ite (fun _ => concludes_closeFlow l _) fun _ => ?_
    refine concludes_ite (fun _ => concludes_closeFlow l _) fun _ => ?_
    refine concludes_ite (fun _ => concludes_flowEntry l) fun _ => ?_
    refine concludes_ite (fun _ => concludes_blockEntry l) fun _ => ?_
    refine concludes_ite (fun _ => concludes_key l) fun _ => ?_
    refine concludes_ite (fun _ => concludes_value l) fun _ => ?_
    refine concludes_ite (fun _ => concludes_anchor l true) fun _ => ?_
    refine concludes_ite (fun _ => concludes_anchor l false) fun _ => ?_
    refine concludes_ite (fun _ => concludes_tag l) fun _ => ?_
    refine concludes_ite (fun _ => concludes_blockScalar l false) fun _ => ?_
    refine concludes_ite (fun _ => concludes_blockScalar l true) fun _ => ?_
    refine concludes_ite (fun _ => concludes_quotedScalar hl false) fun _ => ?_
    refine concludes_ite (fun _ => concludes_quotedScalar hl true) fun _ => ?_
    exact concludes_ite (concludes_plainScalar hend) fun _ =>
      concludes_error (formlessFor_flaw _)

/-!
## Whole texts
-/

theorem skipToToken_keeps (fuel : Nat) (l : Lexer) :
    (skipToToken fuel l).cursor.rest <:+ l.cursor.rest ∧ (skipToToken fuel l).tokens = l.tokens
      ∧ (skipToToken fuel l).done = l.done := by
  induction fuel generalizing l with
  | zero => exact ⟨List.suffix_refl _, rfl, rfl⟩
  | succ fuel ih =>
      have hcomment := Cursor.suffix_comment l.cursor
      rw [skipToToken]
      generalize (if l.cursor.skipBlanks.peek == '#' then
        l.cursor.skipBlanks.skipWhile fun ch => !isBreakOrEnd ch else l.cursor.skipBlanks) = c
        at hcomment ⊢
      split
      · rcases ih _ with ⟨hrest, htokens, hdone⟩
        exact ⟨(hrest.trans (Cursor.suffix_lineBreak _)).trans hcomment, htokens, hdone⟩
      · exact ⟨hcomment, rfl, rfl⟩

/-- What a step does that does not end the text: it reads some of the characters. -/
structure Advances (l l' : Lexer) : Prop where
  rest : l'.cursor.rest <:+ l.cursor.rest
  shorter : l'.cursor.rest.length < l.cursor.rest.length
  tokens : l'.tokens ≠ []
  done : l'.done = l.done

theorem Consumes.advances {l m l' : Lexer} (h : Consumes m l') (hm : m.cursor.rest ≠ [])
    (hrest : m.cursor.rest <:+ l.cursor.rest) (htokens : m.tokens ≠ [])
    (hdone : m.done = l.done) : Advances l l' := by
  have hnext : l'.cursor.rest <:+ m.cursor.rest.drop 1 := Cursor.rest_next m.cursor ▸ h.rest
  constructor
  · exact (h.rest.trans (Cursor.suffix_next _)).trans hrest
  · have hlength := hnext.length_le
    have hpos := List.length_pos_iff.mpr hm
    have hle := hrest.length_le
    rw [List.length_drop] at hlength
    omega
  · intro hnil
    have htokens' := h.tokens
    rw [hnil] at htokens'
    exact htokens (List.eq_nil_of_length_eq_zero (Nat.le_zero.mp htokens'))
  · exact h.done.trans hdone

theorem concludes_dropStaleKeys (l : Lexer) :
    Concludes (Stops cs) (fun l' => ∃ keys, l' = { l with keys := keys }) l.dropStaleKeys := by
  unfold dropStaleKeys
  dsimp only
  split
  · exact concludes_error (formlessFor_flaw _)
  · exact ⟨_, rfl⟩

theorem concludes_step {l : Lexer} (hl : l.cursor.rest <:+ cs) (htokens : l.tokens ≠ []) :
    Concludes (Stops cs) (fun l' => Ended l' ∨ Advances l l') l.step := by
  rw [step]
  rcases skipToToken_keeps l.fuel l with ⟨hrest, htokens', hdone⟩
  rw [← htokens'] at htokens
  generalize skipToToken l.fuel l = m at hrest hdone htokens ⊢
  refine (concludes_dropStaleKeys m).bind fun m' hm' => ?_
  rcases hm' with ⟨keys, rfl⟩
  generalize hm' : { m with keys := keys } = m'
  have hunwind := prepares_unwindTo m' m'.cursor.mark.column
  generalize m'.unwindTo m'.cursor.mark.column = u at hunwind ⊢
  subst hm'
  have hu : u.cursor.rest <:+ l.cursor.rest := by
    rw [hunwind.cursor]
    exact hrest
  have hutokens : u.tokens ≠ [] := by
    have hlength : m.tokens.length ≤ u.tokens.length := hunwind.tokens
    have hpos := List.length_pos_iff.mpr htokens
    exact List.length_pos_iff.mp (by omega)
  refine (concludes_token (hu.trans hl) hutokens).bind fun t ht => ?_
  refine (concludes_dropStaleKeys t).mono fun l' hl' => ?_
  rcases hl' with ⟨keys', rfl⟩
  rcases ht with hended | ⟨hne, hconsumes⟩
  · exact Or.inl ⟨hended.done, hended.last⟩
  · have hadvances := hconsumes.advances hne hu hutokens (hunwind.done.trans hdone)
    exact Or.inr ⟨hadvances.rest, hadvances.shorter, hadvances.tokens, hadvances.done⟩

theorem Ended.run_eq {l : Lexer} (h : Ended l) (fuel : Nat) : run fuel l = (l.ordered, none) := by
  cases fuel with
  | zero => rfl
  | succ fuel => exact run_done h.done fuel

theorem Ended.hasEnd {l : Lexer} (h : Ended l) : HasEnd (l.ordered.drop 1) := by
  rcases h.last with ⟨token, tokens, htokens, hkind, hne⟩
  have hlength : 1 ≤ tokens.reverse.length := by
    rw [List.length_reverse]
    exact List.length_pos_iff.mpr hne
  rw [HasEnd, ordered, htokens, List.reverse_cons, List.drop_append_of_le_length hlength]
  simp [hkind]

/-- Reading gets to the end of the text, unless it stops. -/
theorem run_concludes {l : Lexer} (hl : l.cursor.rest <:+ cs) (htokens : l.tokens ≠ [])
    (hdone : l.done = false) {fuel : Nat} (hfuel : l.cursor.rest.length < fuel) :
    (∃ fault, (run fuel l).2 = some fault ∧ Stops cs fault)
      ∨ (run fuel l).2 = none ∧ HasEnd ((run fuel l).1.drop 1) := by
  induction fuel generalizing l with
  | zero => exact absurd hfuel (Nat.not_lt_zero _)
  | succ fuel ih =>
      have hstep := concludes_step hl htokens
      cases hl' : l.step with
      | error fault =>
          rw [run_error hdone hl']
          exact Or.inl ⟨fault, rfl, hstep.of_error hl'⟩
      | ok l' =>
          rw [run_ok hdone hl']
          rcases hstep.of_ok hl' with hended | hadvances
          · rw [hended.run_eq fuel]
            exact Or.inr ⟨rfl, hended.hasEnd⟩
          · have hshorter := hadvances.shorter
            exact ih (hadvances.rest.trans hl) hadvances.tokens (hadvances.done.trans hdone)
              (by omega)

end Concludes

end Lexer

/-- The tokens of a text end with the end of the stream where none of them is wrong. -/
theorem tokenize_concludes (cs : List Char) :
    (∃ fault, (tokenize cs).2 = some fault ∧ Stops cs fault)
      ∨ (tokenize cs).2 = none ∧ HasEnd ((tokenize cs).1.drop 1) := by
  rw [tokenize]
  split
  · exact Or.inl ⟨_, rfl, formlessFor_of_formed rfl⟩
  · have hstart : (Lexer.start cs).cursor.rest = cs := rfl
    dsimp only
    split
    · have hnext := Cursor.suffix_next (Lexer.start cs).cursor
      refine Lexer.run_concludes hnext (List.cons_ne_nil _ _) rfl ?_
      have hlength := hnext.length_le
      rw [hstart] at hlength
      exact Nat.lt_succ_of_le (Nat.le_succ_of_le hlength)
    · exact Lexer.run_concludes (List.suffix_refl _) (List.cons_ne_nil _ _) rfl
        (Nat.lt_succ_of_le (Nat.le_succ _))

end Yaml
end TextMate
