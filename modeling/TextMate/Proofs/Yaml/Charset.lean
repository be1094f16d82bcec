import TextMate.Proofs.Yaml.Scalar

/-!
# The characters that are written

Whatever is printed, a pen writes only characters that a document may contain:
texts with others are written between double quotes, where escapes spell them.
In front of a colon, moreover, each character takes a column of its own.
-/

namespace TextMate
namespace Yaml

open Text Pen Cursor

/-!
## Kinds of characters
-/

theorem isAcceptable_of_needsEscape {c : Char} (h : needsEscape c = false) :
    isAcceptable c = true := by
  by_cases hfeed : c = '\n'
  · subst hfeed
    rfl
  · simp [needsEscape, hfeed] at h
    simp [isAcceptable]
    omega

theorem isAcceptable_of_isLiteral {c : Char} (h : isLiteral c = true) : isAcceptable c = true := by
  simp [isLiteral] at h
  simp [isAcceptable]
  omega

def IsBasic (c : Char) : Prop :=
  0x20 ≤ c.toNat ∧ c.toNat ≤ 0x7E

theorem IsBasic.isAcceptable {c : Char} (h : IsBasic c) : isAcceptable c = true := by
  rcases h with ⟨hleast, hmost⟩
  simp [Yaml.isAcceptable]
  omega

theorem IsBasic.takesColumn {c : Char} (h : IsBasic c) : TakesColumn c := by
  rcases h with ⟨hleast, hmost⟩
  refine ⟨?_, by omega⟩
  have hfeed : c ≠ '\n' := by
    rintro rfl
    revert hleast
    decide
  have hreturn : c ≠ '\r' := by
    rintro rfl
    revert hleast
    decide
  simp [isBreak, hfeed, hreturn]
  omega

theorem isBasic_escapeLetter {c letter : Char} (h : escapeLetter? c = some letter) :
    IsBasic letter := by
  unfold escapeLetter? at h
  dsimp only at h
  rcases ite_some_eq_some h with ⟨hself, rfl⟩ | h
  · rw [Bool.or_eq_true, beq_iff_eq, beq_iff_eq] at hself
    rcases hself with rfl | rfl <;> constructor <;> decide
  iterate 13
    rcases ite_some_eq_some h with ⟨_, rfl⟩ | h
    · constructor <;> decide
  cases h

theorem isBasic_of_isHex {c : Char} (h : isHex c = true) : IsBasic c := by
  simp only [isHex, Bool.or_eq_true, Char.isDigit, Bool.and_eq_true, decide_eq_true_eq,
    Char.le_def, UInt32.le_iff_toNat_le, ge_iff_le] at h
  have hcode : c.toNat = c.val.toNat := rfl
  simp only [IsBasic, hcode]
  rcases h with (⟨hleast, hmost⟩ | ⟨hleast, hmost⟩) | ⟨hleast, hmost⟩ <;>
    exact ⟨Nat.le_trans (by decide) hleast, Nat.le_trans hmost (by decide)⟩

theorem isBasic_escape (ch : Char) : ∀ c ∈ escape ch, IsBasic c := by
  have hbackslash : IsBasic '\\' := by constructor <;> decide
  cases hletter : escapeLetter? ch with
  | some letter =>
      intro c hc
      rw [escape, hletter] at hc
      rcases List.mem_cons.mp hc with rfl | hc
      · exact hbackslash
      · rw [List.mem_singleton.mp hc]
        exact isBasic_escapeLetter hletter
  | none =>
      have hdigits : ∀ (letter : Char) (width : Nat), IsBasic letter →
          ∀ c ∈ '\\' :: letter :: upperDigits width ch.toNat, IsBasic c := by
        intro letter width hletter c hc
        rcases List.mem_cons.mp hc with rfl | hc
        · exact hbackslash
        · rcases List.mem_cons.mp hc with rfl | hc
          · exact hletter
          · exact isBasic_of_isHex (isHex_upperDigits _ _ c hc)
      rw [escape, hletter]
      dsimp only
      split
      · exact hdigits 'x' 2 (by constructor <;> decide)
      · split
        · exact hdigits 'u' 4 (by constructor <;> decide)
        · exact hdigits 'U' 8 (by constructor <;> decide)

theorem needsEscape_of_allowsPlain {cs : List Char} (h : Style.allowsPlain cs = true) :
    ∀ c ∈ cs, needsEscape c = false := by
  cases cs with
  | nil =>
      rintro c ⟨⟩
  | cons c rest =>
      simp only [Style.allowsPlain, Bool.not_eq_true', Bool.or_eq_false_iff] at h
      intro d hd
      exact Bool.eq_false_iff.mpr (List.any_eq_false.mp h.2 d hd)

theorem needsEscape_of_allowsSingle {cs : List Char} (h : Style.allowsSingle cs = true) :
    ∀ c ∈ cs, needsEscape c = false := by
  simp only [Style.allowsSingle, Bool.not_eq_true', Bool.or_eq_false_iff] at h
  intro c hc
  exact Bool.eq_false_iff.mpr (List.any_eq_false.mp h.2 c hc)

theorem mem_singleChar {c d : Char} (h : d ∈ singleChar c) : d = '\'' ∨ d = c := by
  rw [singleChar] at h
  split at h
  · simp only [List.mem_cons, List.not_mem_nil, or_false, or_self] at h
    exact Or.inl h
  · exact Or.inr (List.mem_singleton.mp h)

theorem mem_doubleChar {c d : Char} (h : d ∈ doubleChar c) :
    IsBasic d ∨ isLiteral d = true := by
  rw [doubleChar] at h
  split at h
  next hliteral =>
    rw [List.mem_singleton.mp h]
    exact Or.inr hliteral
  next => exact Or.inl (isBasic_escape c d h)

theorem isBasic_single : IsBasic '\'' := by
  constructor <;> decide

theorem isBasic_double : IsBasic '"' := by
  constructor <;> decide

/-!
## Keys in front of a colon
-/

theorem takesColumn_of_needsEscape {c : Char} (hescape : needsEscape c = false)
    (hkept : isKeptBreak c = false) : TakesColumn c := by
  by_cases hblank : c = ' '
  · subst hblank
    exact takesColumn_blank
  · exact ⟨isBreak_of_isSpaceOrEnd (isSpaceOrEnd_eq_false hblank hkept hescape),
      toNat_ne_of_needsEscape hescape⟩

theorem takesColumn_of_isLiteral {c : Char} (h : isLiteral c = true) : TakesColumn c := by
  have hfeed : c ≠ '\n' := by
    rintro rfl
    cases h
  have hreturn : c ≠ '\r' := by
    rintro rfl
    cases h
  simp [isLiteral] at h
  refine ⟨?_, by omega⟩
  simp [isBreak, hfeed, hreturn]
  omega

theorem takesColumn_keyForm {s : String} (h : Style.isMultiline s.toList = false) :
    ∀ c ∈ keyForm s, TakesColumn c := by
  have hkept : ∀ c ∈ s.toList, isKeptBreak c = false := by
    intro c hc
    exact Bool.eq_false_iff.mpr (List.any_eq_false.mp h c hc)
  rw [keyForm]
  cases hstyle : Style.choose .text s true with
  | plain =>
      have hescape := needsEscape_of_allowsPlain (choose_plain hstyle).2.1
      intro c hc
      exact takesColumn_of_needsEscape (hescape c hc) (hkept c hc)
  | single =>
      have hescape := needsEscape_of_allowsSingle (choose_single hstyle).1
      intro c hc
      simp only [List.mem_cons, List.mem_append, List.mem_flatMap, List.not_mem_nil,
        or_false] at hc
      rcases hc with rfl | ⟨d, hd, hc⟩ | rfl
      · exact isBasic_single.takesColumn
      · rcases mem_singleChar hc with rfl | rfl
        · exact isBasic_single.takesColumn
        · exact takesColumn_of_needsEscape (hescape c hd) (hkept c hd)
      · exact isBasic_single.takesColumn
  | double =>
      intro c hc
      simp only [List.mem_cons, List.mem_append, List.mem_flatMap, List.not_mem_nil,
        or_false] at hc
      rcases hc with rfl | ⟨d, hd, hc⟩ | rfl
      · exact isBasic_double.takesColumn
      · rcases mem_doubleChar hc with hbasic | hliteral
        · exact hbasic.takesColumn
        · exact takesColumn_of_isLiteral hliteral
      · exact isBasic_double.takesColumn

/-!
## Pens
-/

namespace Pen

def Clean (p : Pen) : Prop :=
  ∀ c ∈ p.written, isAcceptable c = true

variable {p : Pen}

theorem clean_blank : blank.Clean := by
  rintro c ⟨⟩

theorem Clean.put (h : p.Clean) {cs : List Char} (hcs : ∀ c ∈ cs, isAcceptable c = true) :
    (p.put cs).Clean := by
  intro c hc
  rw [written_put, List.mem_append, List.mem_reverse] at hc
  rcases hc with hc | hc
  · exact hcs c hc
  · exact h c hc

theorem Clean.breakWith (h : p.Clean) {c : Char} (hc : isAcceptable c = true) :
    (p.breakWith c).Clean := by
  intro d hd
  rcases List.mem_cons.mp hd with rfl | hd
  · exact hc
  · exact h d hd

theorem Clean.newLine (h : p.Clean) : p.newLine.Clean :=
  h.breakWith rfl

theorem Clean.indentTo (h : p.Clean) (indent : Nat) : (p.indentTo indent).Clean := by
  have hblanks : ∀ {q : Pen}, q.Clean → (if q.column < indent then
      { q.put (List.replicate (indent - q.column) ' ') with afterSpace := true } else q).Clean := by
    intro q hq
    split
    · refine hq.put ?_
      intro c hc
      rw [List.eq_of_mem_replicate hc]
      rfl
    · exact hq
  rw [Pen.indentTo]
  refine hblanks ?_
  split
  · exact h.newLine
  · exact h

theorem Clean.sign (h : p.Clean) {cs : List Char} (hcs : ∀ c ∈ cs, isAcceptable c = true)
    (needsSpace counts : Bool) : (p.sign cs needsSpace counts).Clean := by
  refine h.put ?_
  split
  · exact hcs
  · intro c hc
    rcases List.mem_cons.mp hc with rfl | hc
    · rfl
    · exact hcs c hc

theorem Clean.plainPieces {rs : List (Piece × List Char)} (h : p.Clean)
    (hrs : ∀ c ∈ rs.flatMap (·.2), isAcceptable c = true) (split : Bool) (indent : Nat) :
    (plainPieces split indent rs p).Clean := by
  induction rs generalizing p with
  | nil => exact h
  | cons r rest ih =>
      rcases r with ⟨kind, run⟩
      simp only [List.flatMap_cons, List.mem_append] at hrs
      rw [Pen.plainPieces]
      refine ih ?_ fun c hc => hrs c (Or.inr hc)
      split
      · exact h.indentTo indent
      · exact h.put fun c hc => hrs c (Or.inl hc)

theorem Clean.plain {cs : List Char} (h : p.Clean) (hcs : ∀ c ∈ cs, isAcceptable c = true)
    (split : Bool) (indent : Nat) : (p.plain split indent cs).Clean := by
  rw [Pen.plain]
  split
  · exact h
  · have hstart : (if p.afterSpace then p else p.put [' ']).inScalar.Clean := by
      show (if p.afterSpace then p else p.put [' ']).Clean
      split
      · exact h
      · refine h.put ?_
        intro c hc
        rw [List.mem_singleton.mp hc]
        rfl
    refine hstart.plainPieces ?_ split indent
    rw [flatMap_runs]
    exact hcs

theorem Clean.quotedBreaks {run : List Char} (h : p.Clean)
    (hrun : ∀ c ∈ run, isAcceptable c = true) (indent : Nat) :
    (p.quotedBreaks indent run).Clean := by
  have hfold : ∀ {q : Pen}, q.Clean → (run.foldl Pen.breakWith q).Clean := by
    intro q hq
    induction run generalizing q with
    | nil => exact hq
    | cons c run ih =>
        exact ih (fun d hd => hrun d (List.mem_cons_of_mem _ hd))
          (hq.breakWith (hrun c List.mem_cons_self))
  rw [Pen.quotedBreaks]
  refine (hfold ?_).indentTo indent
  split
  · exact h.newLine
  · exact h

theorem Clean.singlePieces {rs : List (Piece × List Char)} (h : p.Clean)
    (hrs : ∀ c ∈ rs.flatMap (·.2), isAcceptable c = true) (split : Bool) (indent : Nat)
    (isFirst : Bool) : (singlePieces split indent isFirst rs p).Clean := by
  induction rs generalizing p isFirst with
  | nil => exact h
  | cons r rest ih =>
      rcases r with ⟨kind, run⟩
      simp only [List.flatMap_cons, List.mem_append] at hrs
      have hrun : ∀ c ∈ run, isAcceptable c = true := fun c hc => hrs c (Or.inl hc)
      simp only [Pen.singlePieces]
      refine ih ?_ (fun c hc => hrs c (Or.inr hc)) false
      cases kind with
      | breaks => exact h.quotedBreaks hrun indent
      | blanks =>
          dsimp only
          split
          · exact h.indentTo indent
          · exact h.put hrun
      | word =>
          refine h.put ?_
          intro c hc
          rw [List.mem_flatMap] at hc
          rcases hc with ⟨d, hd, hc⟩
          rcases mem_singleChar hc with rfl | rfl
          · rfl
          · exact hrun c hd

theorem Clean.doubleFold {pending : List Char} (h : p.Clean)
    (hpending : ∀ c ∈ pending, isAcceptable c = true) (indent : Nat) (next : Char) :
    (p.doubleFold indent pending next).Clean := by
  have hfold : ((p.put ('\\' :: pending).reverse).indentTo indent).inScalar.Clean := by
    refine (h.put ?_).indentTo indent
    intro c hc
    rw [List.mem_reverse, List.mem_cons] at hc
    rcases hc with rfl | hc
    · rfl
    · exact hpending c hc
  rw [Pen.doubleFold]
  split
  · refine hfold.put ?_
    intro c hc
    rw [List.mem_singleton.mp hc]
    rfl
  · exact hfold

theorem Clean.doubleChars {pending cs : List Char} (h : p.Clean)
    (hpending : ∀ c ∈ pending, isAcceptable c = true) (split : Bool) (indent : Nat)
    (isFirst : Bool) : (doubleChars split indent isFirst pending cs p).Clean := by
  have hwritten : ∀ {pending : List Char}, (∀ c ∈ pending, isAcceptable c = true) →
      ∀ c ∈ pending.reverse, isAcceptable c = true := by
    intro pending hpending c hc
    exact hpending c (List.mem_reverse.mp hc)
  induction cs generalizing p pending isFirst with
  | nil => exact h.put (hwritten hpending)
  | cons c rest ih =>
      rw [Pen.doubleChars]
      dsimp only
      split
      next hliteral =>
        have hc := isAcceptable_of_isLiteral hliteral
        split
        · refine ih (h.doubleFold hpending indent c) ?_ false
          intro d hd
          rw [List.mem_singleton.mp hd]
          exact hc
        · refine ih h ?_ false
          intro d hd
          rcases List.mem_cons.mp hd with rfl | hd
          · exact hc
          · exact hpending d hd
      next =>
        have hnone : ∀ d ∈ ([] : List Char), isAcceptable d = true := by
          rintro d ⟨⟩
        have hescaped := (h.put (hwritten hpending)).put
          fun d hd => (isBasic_escape c d hd).isAcceptable
        split
        · exact ih (hescaped.doubleFold hnone indent _) hnone false
        · exact ih hescaped hnone false

end Pen

namespace Outline

theorem clean_writeScalar {p : Pen} (h : p.Clean) (indent : Option Nat) (isKey : Bool) (tag : Tag)
    (text : String) : (writeScalar indent isKey tag text p).Clean := by
  have hquote : ∀ quote, IsBasic quote → ∀ c ∈ [quote], isAcceptable c = true := by
    intro quote hquote c hc
    rw [List.mem_singleton.mp hc]
    exact hquote.isAcceptable
  rw [writeScalar]
  split
  next hstyle =>
    have hallows : Style.allowsPlain text.toList = true := by
      rw [Style.choose] at hstyle
      split at hstyle
      next hplain => exact (Bool.and_eq_true _ _ ▸ hplain).2
      next => split at hstyle <;> cases hstyle
    exact h.plain (fun c hc =>
      isAcceptable_of_needsEscape (needsEscape_of_allowsPlain hallows c hc)) _ _
  next hstyle =>
    have hallows : Style.allowsSingle text.toList = true := by
      rw [Style.choose] at hstyle
      split at hstyle
      · cases hstyle
      · split at hstyle
        next hsingle => exact (Bool.and_eq_true _ _ ▸ hsingle).1
        next => cases hstyle
    refine Pen.Clean.sign ?_ (hquote _ isBasic_single) false false
    refine (h.sign (hquote _ isBasic_single) true false).singlePieces ?_ _ _ true
    rw [flatMap_runs]
    exact fun c hc => isAcceptable_of_needsEscape (needsEscape_of_allowsSingle hallows c hc)
  next =>
    refine Pen.Clean.sign ?_ (hquote _ isBasic_double) false false
    exact (h.sign (hquote _ isBasic_double) true false).doubleChars (by rintro c ⟨⟩) _ _ true

theorem clean_sign {p : Pen} (h : p.Clean) {sign : Char} (hsign : IsBasic sign)
    (needsSpace counts : Bool) : (p.sign [sign] needsSpace counts).Clean := by
  refine h.sign ?_ needsSpace counts
  intro c hc
  rw [List.mem_singleton.mp hc]
  exact hsign.isAcceptable

mutual

theorem clean_write : ∀ (o : Outline) {p : Pen}, p.Clean → ∀ (indent : Option Nat)
    (isValue isKey : Bool), (write indent isValue isKey o p).Clean
  | scalar tag text, p, h, indent, isValue, isKey => by
      rw [write]
      exact clean_writeScalar h indent isKey tag text
  | sequence items, p, h, indent, isValue, isKey => by
      rw [write]
      split
      · exact clean_sign (clean_sign h (by constructor <;> decide) true false)
          (by constructor <;> decide) false false
      · exact clean_writeItems items h _
  | mapping entries, p, h, indent, isValue, isKey => by
      rw [write]
      split
      · exact clean_sign (clean_sign h (by constructor <;> decide) true false)
          (by constructor <;> decide) false false
      · exact clean_writeEntries entries h _

theorem clean_writeItems : ∀ (items : List Outline) {p : Pen}, p.Clean → ∀ column : Nat,
    (writeItems column items p).Clean
  | [], p, h, column => by
      rw [writeItems]
      exact h
  | item :: items, p, h, column => by
      have hsign := @clean_sign _ (h.indentTo column) '-' (by constructor <;> decide) true true
      rw [writeItems]
      exact clean_writeItems items (clean_write item hsign _ _ _) column

theorem clean_writeEntries : ∀ (entries : List (Outline × Outline)) {p : Pen}, p.Clean →
    ∀ column : Nat, (writeEntries column entries p).Clean
  | [], p, h, column => by
      rw [writeEntries]
      exact h
  | (key, value) :: entries, p, h, column => by
      have hcolon : IsBasic ':' := by constructor <;> decide
      have hindent := h.indentTo column
      rw [writeEntries]
      refine clean_writeEntries entries (clean_write value ?_ _ _ _) column
      split
      · exact clean_sign (clean_write key hindent _ _ _) hcolon false false
      · refine clean_sign (Pen.Clean.indentTo ?_ column) hcolon true true
        exact clean_write key (clean_sign hindent (by constructor <;> decide) true true) _ _ _

end

theorem isAcceptable_print (o : Outline) : ∀ c ∈ o.print.toList, isAcceptable c = true := by
  intro c hc
  rw [print, Pen.text, String.toList_ofList, List.mem_reverse] at hc
  exact (clean_write o Pen.clean_blank none false false).indentTo 0 c hc

end Outline

end Yaml
end TextMate
