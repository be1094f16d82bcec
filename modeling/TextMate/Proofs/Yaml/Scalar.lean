import TextMate.Proofs.Yaml.Plain
import TextMate.Proofs.Yaml.Double
import TextMate.Yaml.Printer
import TextMate.Yaml.Token.Lexer

/-!
# Texts as scalars

Every text is written in one of three ways.  The form that it takes is read as
the text again, with two exceptions: a next line between single quotes, and an
escape in front of an inner blank where the indentation is wide.
-/

namespace TextMate
namespace Yaml

open Text Pen Cursor

/-!
## What is read
-/

/-- A text that has been written as a scalar with some indentation, as it is read. -/
def rereadText (isKey : Bool) (indent : Nat) (s : String) : String :=
  match Style.choose .text s isKey with
  | .plain => s
  | .single => String.ofList (rereadSingle s.toList)
  | .double =>
      String.ofList (rereadDouble (!isKey && decide (bestWidth ≤ indent)) true s.toList)

/-- Texts that are read as they are after they have been written with some indentation. -/
def IsKept (indent : Nat) (s : String) : Prop :=
  match Style.choose .text s false with
  | .plain => True
  | .single => ∀ c ∈ s.toList, c.toNat ≠ 0x85
  | .double =>
      bestWidth ≤ indent → ∀ before c behind, s.toList = before ++ c :: ' ' :: behind →
        before ≠ [] → behind ≠ [] → isLiteral c = true

theorem ofList_eq_iff {cs : List Char} {s : String} : String.ofList cs = s ↔ cs = s.toList := by
  constructor
  · rintro rfl
    rw [String.toList_ofList]
  · rintro rfl
    rw [String.ofList_toList]

theorem rereadText_eq_self_iff (indent : Nat) (s : String) :
    rereadText false indent s = s ↔ IsKept indent s := by
  rw [rereadText, IsKept]
  cases Style.choose .text s false with
  | plain => exact iff_of_true rfl trivial
  | single =>
      dsimp only
      rw [ofList_eq_iff, rereadSingle_eq_self_iff]
  | double =>
      dsimp only
      rw [ofList_eq_iff, Bool.not_false, Bool.true_and]
      by_cases hdeep : bestWidth ≤ indent
      · have hne := rereadDouble_ne_self_iff true s.toList
        rw [decide_eq_true hdeep]
        constructor
        · intro heq _ before c behind hcs hbefore hbehind
          cases hc : isLiteral c with
          | true => rfl
          | false =>
              exact absurd heq (hne.mpr ⟨before, c, behind, hcs, hc, fun _ => hbefore, hbehind⟩)
        · intro hkept
          refine Decidable.byContradiction fun heq => ?_
          rcases hne.mp heq with ⟨before, c, behind, hcs, hc, hbefore, hbehind⟩
          rw [hkept hdeep before c behind hcs (hbefore rfl) hbehind] at hc
          cases hc
      · rw [decide_eq_false hdeep, rereadDouble_of_not_deep]
        exact iff_of_true rfl fun h => absurd h hdeep

instance (indent : Nat) (s : String) : Decidable (IsKept indent s) :=
  decidable_of_iff _ (rereadText_eq_self_iff indent s)

example : rereadText false 2 "a\u0085b" = "a b" := by decide

theorem choose_plain {s : String} {isKey : Bool} (h : Style.choose .text s isKey = .plain) :
    Tag.ofText s = .text ∧ Style.allowsPlain s.toList = true ∧ s.toList ≠ [] := by
  rw [Style.choose] at h
  split at h
  next hplain =>
    simp only [Bool.and_eq_true, beq_iff_eq] at hplain
    refine ⟨hplain.1.1, hplain.2, ?_⟩
    intro hnil
    rw [String.toList_eq_nil_iff] at hnil
    rw [hnil] at hplain
    exact absurd hplain.1.1 (by decide)
  next =>
    split at h <;> cases h

theorem choose_single {s : String} {isKey : Bool} (h : Style.choose .text s isKey = .single) :
    Style.allowsSingle s.toList = true ∧ (isKey = true → s.toList.any isKeptBreak = false) := by
  rw [Style.choose] at h
  split at h
  · cases h
  · split at h
    next hsingle =>
      simp only [Bool.and_eq_true, Bool.not_eq_true', Bool.and_eq_false_iff] at hsingle
      refine ⟨hsingle.1, ?_⟩
      rintro rfl
      exact hsingle.2.resolve_left fun h => nomatch h
    next => cases h

theorem rereadText_key (indent : Nat) (s : String) : rereadText true indent s = s := by
  rw [rereadText]
  cases hstyle : Style.choose .text s true with
  | plain => rfl
  | single =>
      dsimp only
      rw [ofList_eq_iff, rereadSingle_eq_self_iff]
      intro c hc hcode
      have hkept := List.any_eq_false.mp ((choose_single hstyle).2 rfl) c hc
      rw [isKeptBreak, hcode] at hkept
      simp at hkept
  | double =>
      dsimp only
      rw [Bool.not_true, Bool.false_and, rereadDouble_of_not_deep, String.ofList_toList]

theorem rereadText_empty (indent : Nat) : rereadText false indent "" = "" := by
  have hstyle : Style.choose .text "" false = .single := by decide
  rw [rereadText, hstyle]
  rfl

theorem rereadText_ne_empty (isKey : Bool) (indent : Nat) {s : String} (h : s ≠ "") :
    rereadText isKey indent s ≠ "" := by
  have hcs : s.toList ≠ [] := fun hnil => h (String.toList_eq_nil_iff.mp hnil)
  rw [rereadText]
  split
  · exact h
  · exact fun heq => rereadSingle_ne_nil hcs (ofList_eq_iff.mp heq)
  · intro heq
    have hnil := ofList_eq_iff.mp heq
    cases hs : s.toList with
    | nil => exact hcs hs
    | cons c rest =>
        rw [hs, rereadDouble] at hnil
        cases hnil

def keyForm (s : String) : List Char :=
  match Style.choose .text s true with
  | .plain => s.toList
  | .single => '\'' :: (s.toList.flatMap singleChar ++ ['\''])
  | .double => '"' :: (s.toList.flatMap doubleChar ++ ['"'])

/-!
## Forms
-/

/-- The written forms of a scalar. -/
inductive ScalarForm (indent : Nat) : List Char → ScalarText → Prop where
  | plain {cs form : List Char} :
      cs ≠ [] -> Style.allowsPlain cs = true -> PlainForm indent (runs Piece.of cs) form ->
        ScalarForm indent form ⟨Codes.ofChars cs, true⟩
  | quoted {double : Bool} {inner cs : List Char} :
      Spells double inner cs ->
        ScalarForm indent (quoteOf double :: (inner ++ [quoteOf double])) ⟨Codes.ofChars cs, false⟩

def scalarText (isKey : Bool) (indent : Nat) (s : String) : ScalarText :=
  ⟨Codes.ofChars (rereadText isKey indent s).toList, Style.choose .text s isKey == .plain⟩

theorem plain_written {cs : List Char} (hne : cs ≠ []) (h : Style.allowsPlain cs = true)
    (split : Bool) (indent : Nat) (p : Pen) :
    ∃ form, PlainForm indent (runs Piece.of cs) form
      ∧ (p.plain split indent cs).written = (p.lead ++ form).reverse ++ p.written
      ∧ (p.plain split indent cs).inIndent = false
      ∧ (p.plain split indent cs).afterSpace = false
      ∧ (split = false → form = cs
        ∧ (p.plain split indent cs).column = p.column + (p.lead ++ form).length) := by
  have hlead : (if p.afterSpace then p else p.put [' ']).inScalar =
      ⟨p.lead.reverse ++ p.written, p.column + p.lead.length, false, false⟩ := by
    rw [lead]
    cases p.afterSpace <;> simp [inScalar, put]
  rw [plain, List.isEmpty_eq_false_iff.mpr hne, if_neg Bool.false_ne_true]
  dsimp only
  rw [hlead]
  rcases @plainPieces_written _ (plainText_runs hne h) split indent
    ⟨p.lead.reverse ++ p.written, p.column + p.lead.length, false, false⟩ rfl rfl with
    ⟨form, hform, hwritten, hindent, hspace, hkey⟩
  refine ⟨form, hform, ?_, hindent, hspace, ?_⟩
  · rw [hwritten]
    simp
  · intro hsplit
    rcases hkey hsplit with ⟨htext, hcolumn⟩
    rw [flatMap_runs] at htext
    refine ⟨htext, ?_⟩
    rw [hcolumn, List.length_append, Nat.add_assoc]

theorem writeScalar_written (m : Nat) (isKey : Bool) (s : String) {p : Pen}
    (hp : isKey = false → m + 1 ≤ p.column) :
    ∃ form, ScalarForm (m + 2) form (scalarText isKey (m + 2) s)
      ∧ (Outline.writeScalar (some m) isKey .text s p).written =
        (p.lead ++ form).reverse ++ p.written
      ∧ (Outline.writeScalar (some m) isKey .text s p).inIndent = false
      ∧ (Outline.writeScalar (some m) isKey .text s p).afterSpace = false
      ∧ (isKey = true → Style.isMultiline s.toList = false → form = keyForm s
        ∧ (Outline.writeScalar (some m) isKey .text s p).column =
          p.column + (p.lead ++ form).length) := by
  rw [Outline.writeScalar, scalarText, rereadText, keyForm]
  dsimp only [Outline.deeper]
  cases hstyle : Style.choose .text s isKey with
  | plain =>
      rcases choose_plain hstyle with ⟨_, hallows, hne⟩
      rcases plain_written hne hallows (!isKey) (m + 2) p with
        ⟨form, hform, hwritten, hindent, hspace, hkey⟩
      refine ⟨form, .plain hne hallows hform, hwritten, hindent, hspace, ?_⟩
      rintro rfl _
      rw [hstyle]
      exact hkey rfl
  | single =>
      rcases choose_single hstyle with ⟨hallows, hline⟩
      rcases single_written hallows (!isKey) (Nat.succ_pos (m + 1)) p with
        ⟨inner, hspells, hwritten, hindent, hspace, hkey⟩
      dsimp only
      rw [String.toList_ofList]
      refine ⟨_, .quoted hspells, hwritten, hindent, hspace, ?_⟩
      rintro rfl hmultiline
      rw [hstyle]
      rcases hkey rfl hmultiline with ⟨rfl, hcolumn⟩
      exact ⟨rfl, hcolumn⟩
  | double =>
      rcases double_written (!isKey) (Nat.succ_pos (m + 1)) s.toList (p := p) (by
        intro hsplit
        have hcolumn := hp (by simpa using hsplit)
        omega) with ⟨inner, hspells, hwritten, hindent, hspace, hkey⟩
      dsimp only
      rw [String.toList_ofList]
      refine ⟨_, .quoted hspells, hwritten, hindent, hspace, ?_⟩
      rintro rfl _
      rw [hstyle]
      rcases hkey rfl with ⟨rfl, hcolumn⟩
      exact ⟨rfl, hcolumn⟩

/-!
## How forms start
-/

/-- The first word of a form is that of the text, and space follows it in both or in neither. -/
theorem PlainForm.exists_word {indent : Nat} {rs : List (Piece × List Char)} {form : List Char}
    (h : PlainForm indent rs form) :
    ∃ word more more', IsPlainWord word ∧ form = word ++ more ∧ rs.flatMap (·.2) = word ++ more'
      ∧ ((more = [] ∧ more' = [])
        ∨ (more ≠ [] ∧ isSpaceOrEnd (more.headD endMark) = true
          ∧ isSpaceOrEnd (more'.headD endMark) = true)) := by
  cases h with
  | last hword =>
      exact ⟨form, [], [], hword, (List.append_nil form).symm, by simp, Or.inl ⟨rfl, rfl⟩⟩
  | @blanks word blanks form rest hword hne hblanks hform =>
      refine ⟨word, _, _, hword, rfl, by rw [List.flatMap_cons], Or.inr ?_⟩
      cases blanks with
      | nil => exact absurd rfl hne
      | cons b blanks =>
          rw [hblanks b List.mem_cons_self]
          exact ⟨List.cons_ne_nil _ _, rfl, rfl⟩
  | @folded word form rest hword hform =>
      exact ⟨word, _, _, hword, rfl, by rw [List.flatMap_cons],
        Or.inr ⟨List.cons_ne_nil _ _, rfl, rfl⟩⟩

def EndsScalar (tail : List Char) : Prop :=
  tail.headD endMark = ':' ∨ tail.headD endMark = '\n'

structure PlainHead (c next : Char) : Prop where
  noSpace : isSpaceOrEnd c = false
  ne_mark : c.toNat ≠ 0xFEFF
  noIndicator : "#,[]\x7b\x7d&*!|>'\"%@\x60".toList.contains c = false
  goesOn : c = '?' ∨ c = ':' ∨ c = '-' → isSpaceOrEnd next = false

theorem PlainHead.startsPlain {c next : Char} (h : PlainHead c next) :
    Lexer.startsPlain false c next = true := by
  by_cases hsign : c = '?' ∨ c = ':' ∨ c = '-'
  · rw [Lexer.startsPlain, h.goesOn hsign]
    rcases hsign with rfl | rfl | rfl <;> decide
  · have hno := h.noIndicator
    simp [Lexer.startsPlain, h.noSpace] at hno hsign ⊢
    simp [hno, hsign]

theorem headD_behind_word_ne {more tail : List Char}
    (hmore : more = [] ∨ more ≠ [] ∧ isSpaceOrEnd (more.headD endMark) = true)
    (htail : EndsScalar tail) {d : Char} (hd : d = '-' ∨ d = '.') :
    (more ++ tail).headD endMark ≠ d := by
  intro heq
  have hspace : isSpaceOrEnd d = false := by
    rcases hd with rfl | rfl <;> rfl
  rcases hmore with rfl | ⟨hne, hspace'⟩
  · rw [List.nil_append] at heq
    rcases htail with htail | htail <;> rw [heq] at htail <;> subst htail <;>
      exact absurd hd (by decide)
  · cases more with
    | nil => exact hne rfl
    | cons m more =>
        rw [List.cons_append, List.headD_cons] at heq
        rw [List.headD_cons, heq, hspace] at hspace'
        cases hspace'

theorem PlainForm.exists_head {indent : Nat} {cs form tail : List Char} (hne : cs ≠ [])
    (hallows : Style.allowsPlain cs = true) (h : PlainForm indent (runs Piece.of cs) form)
    (htail : EndsScalar tail) :
    ∃ c more, form ++ tail = c :: more ∧ PlainHead c (more.headD endMark)
      ∧ (∀ d, d = '-' ∨ d = '.' → ∀ rest, form ++ tail ≠ d :: d :: d :: rest) := by
  rcases h.exists_word with ⟨word, more, more', hword, rfl, hcs, hmore⟩
  rw [flatMap_runs] at hcs
  subst hcs
  rcases hw : word with _ | ⟨c, word'⟩
  · exact absurd hw hword.ne_nil
  subst hw
  simp only [List.cons_append, Style.allowsPlain, Bool.not_eq_true', Bool.or_eq_false_iff]
    at hallows
  rcases hallows with ⟨⟨⟨⟨⟨hborder, hstart⟩, _⟩, _⟩, _⟩, _⟩
  rw [startsIndicator, Bool.or_eq_false_iff] at hstart
  have hafter : ∀ d, d = '-' ∨ d = '.' → (more ++ tail).headD endMark ≠ d :=
    fun d hd => headD_behind_word_ne (hmore.imp And.left fun h => ⟨h.1, h.2.1⟩) htail hd
  refine ⟨c, word' ++ (more ++ tail), by simp, ?_, ?_⟩
  · refine ⟨hword.noSpace c List.mem_cons_self, (hword.takesColumn c List.mem_cons_self).2,
      hstart.1, ?_⟩
    intro hspecial
    cases word' with
    | nil =>
        have hspace : isSpaceOrEnd (more'.headD endMark) = true := by
          rcases hmore with ⟨_, rfl⟩ | ⟨_, _, hspace⟩
          · rfl
          · exact hspace
        have hnext := hstart.2
        rw [List.nil_append, hspace, Bool.and_true] at hnext
        rcases hspecial with rfl | rfl | rfl <;> cases hnext
    | cons d word' => exact hword.noSpace d (List.mem_cons_of_mem _ List.mem_cons_self)
  · intro d hd rest heq
    rcases word' with _ | ⟨a, _ | ⟨b, word'⟩⟩
    · refine hafter d hd ?_
      simp only [List.cons_append, List.nil_append, List.cons.injEq] at heq
      rw [heq.2]
      rfl
    · refine hafter d hd ?_
      simp only [List.cons_append, List.nil_append, List.cons.injEq] at heq
      rw [heq.2.2]
      rfl
    · simp only [List.cons_append, List.cons.injEq] at heq
      rcases heq with ⟨rfl, rfl, rfl, _⟩
      rcases hd with rfl | rfl <;> cases hborder

theorem ScalarForm.startsToken {indent : Nat} {form tail : List Char} {text : ScalarText}
    (h : ScalarForm indent form text) (htail : EndsScalar tail) :
    StartsToken (form ++ tail) := by
  cases h with
  | plain hne hallows hform =>
      rcases hform.exists_head hne hallows htail with ⟨c, more, heq, hhead, hborder⟩
      have hc : (form ++ tail).headD endMark = c := by
        rw [heq]
        rfl
      refine ⟨?_, ?_, ?_, ?_, hborder '-' (Or.inl rfl), hborder '.' (Or.inr rfl)⟩
      all_goals rw [hc]
      · exact ne_blank_of_isSpaceOrEnd hhead.noSpace
      · exact isBreak_of_isSpaceOrEnd hhead.noSpace
      · rintro rfl
        have hindicator := hhead.noIndicator
        revert hindicator
        decide
      · exact hhead.ne_mark
  | @quoted double inner cs hspells =>
      cases double <;>
        exact startsToken_cons (by decide) (by decide) (by decide) (fun h => nomatch h) (by decide)

end Yaml
end TextMate
