import Mathlib.Algebra.Group.Nat.Defs
import Mathlib.Data.List.GetD
import Mathlib.Data.List.Induction
import TextMate.Proofs.Yaml.Cursor
import TextMate.Proofs.Yaml.Faults
import TextMate.Yaml.Token.Property
import TextMate.Yaml.Token.Scalar

/-!
# What scanning leaves

Whatever is scanned, the characters left are the last ones of those before.  A
scan stops at a flaw, at a number that is too great, or at a code escape beyond
all characters.
-/

namespace TextMate
namespace Yaml

open Text

namespace Cursor

theorem suffix_skip (n : Nat) (c : Cursor) : (c.skip n).rest <:+ c.rest := by
  rw [rest_skip]
  exact List.drop_suffix n c.rest

theorem suffix_next (c : Cursor) : c.next.rest <:+ c.rest :=
  suffix_skip 1 c

theorem suffix_takeWhile (p : Char → Bool) (c : Cursor) : (c.takeWhile p).2.rest <:+ c.rest :=
  suffix_skip _ c

theorem suffix_skipWhile (p : Char → Bool) (c : Cursor) : (c.skipWhile p).rest <:+ c.rest :=
  suffix_skip _ c

theorem suffix_skipBlanks (c : Cursor) : c.skipBlanks.rest <:+ c.rest :=
  suffix_skip _ c

theorem suffix_lineBreak (c : Cursor) : c.lineBreak.2.rest <:+ c.rest := by
  unfold lineBreak
  dsimp only
  split
  · exact suffix_skip 2 c
  · split
    · exact suffix_next c
    · split
      · exact suffix_next c
      · exact List.suffix_refl _

theorem suffix_comment (c : Cursor) :
    (if c.skipBlanks.peek == '#' then c.skipBlanks.skipWhile fun ch => !isBreakOrEnd ch
      else c.skipBlanks).rest <:+ c.rest := by
  split
  · exact (suffix_skipWhile _ _).trans (suffix_skipBlanks c)
  · exact suffix_skipBlanks c

theorem rest_eq_cons {c : Cursor} {ch : Char} (h : c.peek = ch) (hch : ch ≠ endMark) :
    c.rest = ch :: c.next.rest := by
  cases hrest : c.rest with
  | nil =>
      rw [peek, hrest] at h
      exact absurd h.symm hch
  | cons d rest => rw [← h, peek_cons hrest, rest_next_cons hrest]

end Cursor

/-- Somewhere in a text, eight hexadecimal digits behind `\U` denote more than a machine
counts. -/
def HasHugeEscape (cs : List Char) : Prop :=
  ∃ digits : List Char, '\\' :: 'U' :: digits <:+: cs ∧ digits.length = 8
    ∧ digits.all isHexDigit = true ∧ 0x80000000 ≤ hexValue digits

/-- What scanning a text may fail with: among the faults of what has no form, there is only the
one of an escape that the text has. -/
def Stops (cs : List Char) : Fault → Prop :=
  FormlessFor fun fault => fault = .hugeCode ∧ HasHugeEscape cs

/-- A scan of a text from a cursor on that stops as it may, or leaves some of the characters behind
the cursor. -/
def Scans {α : Type} (cs : List Char) (c : Cursor) (x : Except Fault (α × Cursor)) : Prop :=
  Concludes (Stops cs) (fun r => r.2.rest <:+ c.rest) x

section Scans

variable {α β : Type} {cs : List Char} {c c' : Cursor} {context : Context} {start : Mark}
  {problem : Problem}

theorem scans_ok {a : α} (h : c'.rest <:+ c.rest) : Scans cs c (.ok (a, c')) :=
  h

theorem scans_failIn :
    Scans cs c (c'.failIn context start problem : Except Fault (α × Cursor)) :=
  concludes_error (formlessFor_flaw _)

theorem Scans.mono {x : Except Fault (α × Cursor)} (h : Scans cs c' x)
    (hc : c'.rest <:+ c.rest) : Scans cs c x :=
  Concludes.mono h fun _ hr => hr.trans hc

theorem Scans.bind {x : Except Fault (α × Cursor)}
    {f : α × Cursor → Except Fault (β × Cursor)} (h : Scans cs c x)
    (hf : ∀ a c', c'.rest <:+ c.rest → Scans cs c (f (a, c'))) : Scans cs c (x >>= f) :=
  Concludes.bind h fun r hr => hf r.1 r.2 hr

end Scans

/-!
## Properties and directives
-/

section Property

variable {cs : List Char} {context : Context} {start : Mark}

theorem scans_anchorName (isAlias : Bool) (c : Cursor) :
    Scans cs c.next (scanAnchorName isAlias c) := by
  unfold scanAnchorName
  dsimp only [Cursor.takeWhile]
  split
  · exact scans_failIn
  · split
    · exact scans_ok (Cursor.suffix_skip _ _)
    · exact scans_failIn

theorem scans_uriBytes (fuel : Nat) (c : Cursor) :
    Scans cs c (scanUriBytes context start fuel c) := by
  induction fuel generalizing c with
  | zero => exact scans_ok (List.suffix_refl _)
  | succ fuel ih =>
      rw [scanUriBytes]
      dsimp only
      split
      · exact scans_ok (List.suffix_refl _)
      · refine concludes_require (formlessFor_flaw _) fun _ => ?_
        refine concludes_require (formlessFor_flaw _) fun _ => ?_
        refine Scans.bind ((ih _).mono ?_) fun bytes c' hc' => scans_ok hc'
        exact (Cursor.suffix_skip 2 _).trans (Cursor.suffix_next c)

theorem scans_uriChars (fuel : Nat) (c : Cursor) :
    Scans cs c (scanUriChars context start fuel c) := by
  induction fuel generalizing c with
  | zero => exact scans_ok (List.suffix_refl _)
  | succ fuel ih =>
      rw [scanUriChars]
      dsimp only [Cursor.takeWhile]
      split
      · exact scans_ok (Cursor.suffix_skip _ c)
      · refine Scans.bind ((scans_uriBytes _ _).mono (Cursor.suffix_skip _ c))
          fun bytes behind hbehind => ?_
        dsimp only
        split
        · exact scans_failIn
        · exact Scans.bind ((ih behind).mono hbehind) fun more c' hc' => scans_ok hc'

theorem scans_uri (scanning parsing : Context) (c : Cursor) :
    Scans cs c (scanUri scanning parsing start c) := by
  rw [scanUri]
  refine concludes_refuse (formlessFor_flaw _) fun _ => ?_
  exact Scans.bind (scans_uriChars _ c) fun text c' hc' => scans_ok hc'

theorem scans_handle (c : Cursor) : Scans cs c.next (scanHandle context start c) := by
  rw [scanHandle]
  dsimp only [Cursor.takeWhile]
  refine concludes_require (formlessFor_flaw _) fun _ => ?_
  split
  · exact scans_ok (List.suffix_refl _)
  · refine concludes_require (formlessFor_flaw _) fun _ => ?_
    exact scans_ok ((Cursor.suffix_next _).trans (Cursor.suffix_skip _ _))

theorem scans_tag (c : Cursor) : Scans cs c.next (scanTag c) := by
  rw [scanTag]
  dsimp only
  refine Scans.bind ?_ fun tag c' hc' => ?_
  · split
    · have hskip : (c.skip 2).rest <:+ c.next.rest := Cursor.suffix_next c.next
      refine Scans.bind ((scans_uri _ _ _).mono hskip) fun suffix c' hc' => ?_
      refine concludes_require (formlessFor_flaw _) fun _ => ?_
      exact scans_ok ((Cursor.suffix_next c').trans hc')
    · split
      · exact scans_ok (List.suffix_refl _)
      · split
        · refine Scans.bind (scans_handle c) fun handle c' hc' => ?_
          exact Scans.bind ((scans_uri _ _ c').mono hc') fun suffix c'' hc'' => scans_ok hc''
        · refine Scans.bind (scans_ok (List.suffix_refl _)) fun handle c' hc' => ?_
          exact Scans.bind ((scans_uri _ _ c').mono hc') fun suffix c'' hc'' => scans_ok hc''
  · refine concludes_require (formlessFor_flaw _) fun _ => ?_
    exact scans_ok hc'

theorem concludes_lineEnd (c : Cursor) :
    Concludes (Stops cs) (fun c' => c'.rest <:+ c.rest) (scanLineEnd context start c) := by
  rw [scanLineEnd]
  refine concludes_require (formlessFor_flaw _) fun _ => ?_
  exact (Cursor.suffix_lineBreak _).trans (Cursor.suffix_comment c)

theorem scans_versionNumber (c : Cursor) : Scans cs c (scanVersionNumber start c) := by
  rw [scanVersionNumber]
  dsimp only [Cursor.takeWhile]
  refine concludes_require (formlessFor_flaw _) fun _ => ?_
  refine concludes_refuse (formlessFor_of_formed rfl) fun _ => ?_
  exact scans_ok (Cursor.suffix_skip _ c)

theorem scans_version (c : Cursor) : Scans cs c (scanVersion start c) := by
  rw [scanVersion]
  refine Scans.bind ((scans_versionNumber _).mono (Cursor.suffix_skipBlanks c))
    fun major c₁ hc₁ => ?_
  refine concludes_require (formlessFor_flaw _) fun _ => ?_
  refine Scans.bind ((scans_versionNumber _).mono ((Cursor.suffix_next c₁).trans hc₁))
    fun minor c₂ hc₂ => ?_
  refine concludes_require (formlessFor_flaw _) fun _ => ?_
  exact scans_ok hc₂

theorem scans_handleDirective (c : Cursor) : Scans cs c (scanHandleDirective start c) := by
  rw [scanHandleDirective]
  have hhandle := (Cursor.suffix_next _).trans (Cursor.suffix_skipBlanks c)
  refine Scans.bind ((scans_handle c.skipBlanks).mono hhandle) fun handle c₁ hc₁ => ?_
  refine concludes_require (formlessFor_flaw _) fun _ => ?_
  refine Scans.bind ((scans_uri _ _ _).mono ((Cursor.suffix_skipBlanks c₁).trans hc₁))
    fun replacement c₂ hc₂ => ?_
  refine concludes_require (formlessFor_flaw _) fun _ => ?_
  exact scans_ok hc₂

theorem scans_directive (c : Cursor) : Scans cs c.next (scanDirective c) := by
  rw [scanDirective]
  dsimp only [Cursor.takeWhile]
  generalize List.takeWhile isNameChar c.next.rest = name
  have hname := Cursor.suffix_skip name.length c.next
  refine concludes_refuse (formlessFor_flaw _) fun _ => ?_
  refine concludes_require (formlessFor_flaw _) fun _ => ?_
  refine Concludes.bind (?_ : Concludes _ (fun r => r.2.2.rest <:+ c.next.rest) _) fun r hr => ?_
  · split
    · exact Concludes.bind ((scans_version _).mono hname) fun r hr => hr
    · split
      · exact Concludes.bind ((scans_handleDirective _).mono hname) fun r hr => hr
      · exact (Cursor.suffix_skipWhile _ _).trans hname
  · exact Concludes.bind (concludes_lineEnd _) fun c' hc' => scans_ok (hc'.trans hr)

end Property

/-!
## Plain scalars
-/

section Plain

theorem suffix_plainBreaks (fuel : Nat) (c : Cursor) : (plainBreaks fuel c).2.rest <:+ c.rest := by
  induction fuel generalizing c with
  | zero => exact List.suffix_refl _
  | succ fuel ih =>
      rw [plainBreaks]
      split
      · exact (ih c.next).trans (Cursor.suffix_next c)
      · split
        · have hbreak := Cursor.suffix_lineBreak c
          dsimp only
          split
          · exact hbreak
          · exact (ih _).trans hbreak
        · exact List.suffix_refl _

theorem suffix_plainSpaces (fuel : Nat) (c : Cursor) :
    (plainSpaces fuel c).2.2.rest <:+ c.rest := by
  have htake := Cursor.suffix_takeWhile (· == ' ') c
  rw [plainSpaces]
  dsimp only
  split
  · have hbreak := (Cursor.suffix_lineBreak _).trans htake
    split
    · exact hbreak
    · have hbreaks := (suffix_plainBreaks fuel _).trans hbreak
      split
      next hfound =>
        rw [hfound] at hbreaks
        exact hbreaks
      next hfound =>
        rw [hfound] at hbreaks
        exact hbreaks
  · exact htake

theorem suffix_plainPieces {inFlow : Bool} {indent : Int} (fuel : Nat) (spaces : List Char)
    (scan : PlainScan) :
    (scanPlainPieces inFlow indent fuel spaces scan).behind.rest <:+ scan.behind.rest := by
  induction fuel generalizing spaces scan with
  | zero => exact List.suffix_refl _
  | succ fuel ih =>
      rw [scanPlainPieces]
      dsimp only
      generalize (if scan.behind.peek == '#' then 0 else plainLength inFlow scan.behind.rest) =
        length
      have hspaces := (suffix_plainSpaces fuel (scan.behind.skip length)).trans
        (Cursor.suffix_skip length scan.behind)
      split
      · exact List.suffix_refl _
      · split
        · exact hspaces
        · exact (ih _ _).trans hspaces

theorem suffix_plain {inFlow : Bool} {indent : Int} {fuel : Nat} {c : Cursor}
    (hsharp : c.peek ≠ '#') (hlength : plainLength inFlow c.rest ≠ 0) :
    (scanPlain (fuel + 1) inFlow indent c).behind.rest <:+ c.next.rest := by
  rw [scanPlain, scanPlainPieces]
  dsimp only
  rw [beq_false_of_ne hsharp, if_neg Bool.false_ne_true, beq_false_of_ne hlength,
    if_neg Bool.false_ne_true]
  rcases Nat.exists_eq_succ_of_ne_zero hlength with ⟨length, hlength⟩
  rw [hlength]
  have hspaces := (suffix_plainSpaces fuel _).trans (Cursor.suffix_skip length c.next)
  split
  · exact hspaces
  · exact (suffix_plainPieces fuel _ _).trans hspaces

end Plain

/-!
## Quoted scalars
-/

section Quoted

variable {cs : List Char} {start : Mark}

theorem scans_quotedBreaks (fuel : Nat) (c : Cursor) : Scans cs c (quotedBreaks start fuel c) := by
  induction fuel generalizing c with
  | zero => exact scans_ok (List.suffix_refl _)
  | succ fuel ih =>
      rw [quotedBreaks]
      refine concludes_refuse (formlessFor_flaw _) fun _ => ?_
      have hspace := Cursor.suffix_skipWhile (fun ch => ch == ' ' || ch == '\t') c
      dsimp only
      split
      · have hbreak := (Cursor.suffix_lineBreak _).trans hspace
        exact Scans.bind ((ih _).mono hbreak) fun breaks c' hc' => scans_ok hc'
      · exact scans_ok hspace

theorem scans_quotedSpaces (fuel : Nat) (c : Cursor) :
    Scans cs c (quotedSpaces fuel start c) := by
  have hspace := Cursor.suffix_takeWhile (fun ch => ch == ' ' || ch == '\t') c
  rw [quotedSpaces]
  dsimp only
  refine concludes_refuse (formlessFor_flaw _) fun _ => ?_
  split
  · have hbreak := (Cursor.suffix_lineBreak _).trans hspace
    exact Scans.bind ((scans_quotedBreaks fuel _).mono hbreak) fun breaks c' hc' => scans_ok hc'
  · exact scans_ok hspace

theorem decimalValue?_lt {c : Char} {n : Nat} (h : decimalValue? c = some n) : n < 10 := by
  unfold decimalValue? at h
  split at h
  · split at h
    next hdigit =>
      cases h
      have hle : c.toNat ≤ 57 := by
        simp only [Char.isDigit, Bool.and_eq_true, decide_eq_true_eq] at hdigit
        exact hdigit.2
      omega
    · cases h
  · rcases Option.map_eq_some_iff.mp h with ⟨first, hfirst, rfl⟩
    have hin := List.find?_some hfirst
    simp only [Bool.and_eq_true, decide_eq_true_eq] at hin
    omega

theorem digitValue_lt (c : Char) : (Decimal.digitValue? c).getD 0 < 16 := by
  unfold Decimal.digitValue?
  split
  next n hn =>
    have := decimalValue?_lt hn
    rw [Option.getD_some]
    omega
  · split
    next hletter =>
      simp only [Bool.and_eq_true, decide_eq_true_eq] at hletter
      have hle : c.toNat ≤ 'f'.toNat := hletter.2
      rw [Option.getD_some, show 'a'.toNat = 97 from rfl]
      rw [show 'f'.toNat = 102 from rfl] at hle
      omega
    · split
      next hletter =>
        simp only [Bool.and_eq_true, decide_eq_true_eq] at hletter
        have hle : c.toNat ≤ 'F'.toNat := hletter.2
        rw [Option.getD_some, show 'A'.toNat = 65 from rfl]
        rw [show 'F'.toNat = 70 from rfl] at hle
        omega
      · decide

theorem hexValue_lt (digits : List Char) : hexValue digits < 16 ^ digits.length := by
  induction digits using List.reverseRecOn with
  | nil => decide
  | append_singleton digits d ih =>
      have hd := digitValue_lt d
      unfold hexValue at ih ⊢
      rw [List.foldl_append, List.foldl_cons, List.foldl_nil, List.length_append,
        List.length_singleton, Nat.pow_succ]
      omega

theorem take_of_firstNonHex {c : Cursor} {n : Nat} (h : firstNonHex c n = none) :
    (c.rest.take n).length = n ∧ (c.rest.take n).all isHexDigit = true := by
  have hdigit : ∀ i < n, isHexDigit (c.peekAt i) = true := by
    intro i hi
    have hi := List.find?_eq_none.mp h _ (List.mem_map_of_mem (List.mem_range.mpr hi))
    rwa [Bool.not_eq_true, Bool.not_eq_false'] at hi
  have hlength : n ≤ c.rest.length := by
    rcases Nat.lt_or_ge c.rest.length n with hlt | hle
    · have hend := hdigit _ hlt
      rw [Cursor.peekAt, List.getD_eq_default _ _ (Nat.le_refl _)] at hend
      cases hend
    · exact hle
  constructor
  · exact List.length_take_of_le hlength
  · rw [List.all_eq_true]
    intro d hd
    rcases List.mem_take_iff_getElem.mp hd with ⟨i, hi, rfl⟩
    have hi' := hdigit i (by omega)
    rwa [Cursor.peekAt, List.getD_eq_getElem _ _ (by omega)] at hi'

theorem codeEscapeLength?_cases {ch : Char} {length : Nat}
    (h : codeEscapeLength? ch = some length) : length ≤ 4 ∨ ch = 'U' ∧ length = 8 := by
  unfold codeEscapeLength? at h
  split at h
  · cases h
    exact Or.inl (by decide)
  · split at h
    · cases h
      exact Or.inl (by decide)
    · split at h
      next hch =>
        cases h
        exact Or.inr ⟨eq_of_beq hch, rfl⟩
      · cases h

theorem hasHugeEscape_of_digits {cs : List Char} {c : Cursor} {length : Nat}
    (hc : '\\' :: c.rest <:+ cs) (hlength : codeEscapeLength? c.peek = some length)
    (hhex : firstNonHex c.next length = none)
    (hhuge : 0x80000000 ≤ hexValue (c.next.rest.take length)) : HasHugeEscape cs := by
  have hdigits := take_of_firstNonHex hhex
  rcases codeEscapeLength?_cases hlength with hshort | ⟨hletter, rfl⟩
  · have hlt := hexValue_lt (c.next.rest.take length)
    rw [hdigits.1] at hlt
    have hpow : 16 ^ length ≤ 16 ^ 4 := Nat.pow_le_pow_right (by decide) hshort
    omega
  · rw [Cursor.rest_eq_cons hletter (by decide)] at hc
    have hprefix : '\\' :: 'U' :: c.next.rest.take 8 <+: '\\' :: 'U' :: c.next.rest := by
      rw [List.prefix_cons_inj, List.prefix_cons_inj]
      exact List.take_prefix 8 _
    exact ⟨c.next.rest.take 8, hprefix.isInfix.trans hc.isInfix, hdigits.1, hdigits.2, hhuge⟩

theorem scans_escape {fuel : Nat} {c : Cursor} (hc : '\\' :: c.rest <:+ cs) :
    Scans cs c (scanEscape fuel start c) := by
  rw [scanEscape]
  dsimp only
  split
  · exact scans_ok (Cursor.suffix_next c)
  · split
    next length hlength =>
      split
      · exact scans_failIn
      next hhex =>
        split
        next hhuge => exact fun _ => ⟨rfl, hasHugeEscape_of_digits hc hlength hhex hhuge⟩
        · refine concludes_refuse (formlessFor_of_formed rfl) fun _ => ?_
          exact scans_ok ((Cursor.suffix_skip length _).trans (Cursor.suffix_next c))
    next =>
      split
      · have hbreak := Cursor.suffix_lineBreak c
        exact Scans.bind ((scans_quotedBreaks fuel _).mono hbreak)
          fun breaks c' hc' => scans_ok hc'
      · exact scans_failIn

theorem scans_quotedCodes {double : Bool} (fuel : Nat) {c : Cursor} (hc : c.rest <:+ cs) :
    Scans cs c (scanQuotedCodes double start fuel c) := by
  induction fuel generalizing c with
  | zero => exact scans_failIn
  | succ fuel ih =>
      -- what follows a piece of the scalar
      have hmore : ∀ (piece : Codes) (c' : Cursor), c'.rest <:+ c.rest → Scans cs c (do
          let v ← scanQuotedCodes double start fuel c'
          return (piece ++ v.1, v.2)) := by
        intro piece c' hc'
        exact Scans.bind ((ih (hc'.trans hc)).mono hc') fun codes c'' hc'' => scans_ok hc''
      rw [scanQuotedCodes]
      dsimp only
      generalize (if double then '"' else '\'') = quote
      split
      · exact hmore [_] _ (Cursor.suffix_skip 2 c)
      · split
        · exact scans_ok (Cursor.suffix_next c)
        · refine Scans.bind ?_ fun piece c' hc' => hmore piece c' hc'
          split
          next hescape =>
            rw [Bool.and_eq_true, beq_iff_eq] at hescape
            have hrest := Cursor.rest_eq_cons hescape.2 (by decide)
            exact (scans_escape (hrest ▸ hc)).mono (Cursor.suffix_next c)
          · split
            · exact Scans.bind (scans_quotedSpaces fuel c) fun spaces c' hc' => scans_ok hc'
            · exact scans_ok (Cursor.suffix_next c)

theorem scans_quoted {fuel : Nat} {double : Bool} {c : Cursor} (hc : c.rest <:+ cs) :
    Scans cs c.next (scanQuoted fuel double c) := by
  rw [scanQuoted]
  refine Scans.bind (scans_quotedCodes fuel ((Cursor.suffix_next c).trans hc))
    fun codes c' hc' => scans_ok hc'

end Quoted

/-!
## Block scalars
-/

section Block

variable {cs : List Char} {start : Mark}

theorem scans_indentationDigit (c : Cursor) : Scans cs c (scanIndentationDigit start c) := by
  rw [scanIndentationDigit]
  refine concludes_refuse (formlessFor_flaw _) fun _ => ?_
  dsimp only
  split
  · exact scans_ok (Cursor.suffix_next c)
  · exact scans_ok (List.suffix_refl _)

theorem scans_blockHeader (c : Cursor) : Scans cs c (scanBlockHeader start c) := by
  rw [scanBlockHeader]
  dsimp only
  refine Scans.bind ?_ fun header c' hc' => ?_
  · split
    · exact Scans.bind ((scans_indentationDigit _).mono (Cursor.suffix_next c))
        fun digit c' hc' => scans_ok hc'
    · refine Scans.bind (scans_indentationDigit c) fun digit c' hc' => ?_
      dsimp only
      split
      · exact scans_ok ((Cursor.suffix_next c').trans hc')
      · exact scans_ok hc'
  · refine concludes_require (formlessFor_flaw _) fun _ => ?_
    exact scans_ok hc'

theorem concludes_headerEnd (c : Cursor) :
    Concludes (Stops cs) (fun c' => c'.rest <:+ c.rest) (scanHeaderEnd start c) := by
  rw [scanHeaderEnd]
  refine concludes_require (formlessFor_flaw _) fun _ => ?_
  exact (Cursor.suffix_lineBreak _).trans (Cursor.suffix_comment c)

theorem suffix_detectIndentation (fuel widest : Nat) (stop : Mark) (c : Cursor) :
    (detectIndentation fuel widest stop c).2.2.2.rest <:+ c.rest := by
  induction fuel generalizing widest stop c with
  | zero => exact List.suffix_refl _
  | succ fuel ih =>
      rw [detectIndentation]
      split
      · exact (ih _ _ _).trans (Cursor.suffix_next c)
      · split
        · exact (ih _ _ _).trans (Cursor.suffix_lineBreak c)
        · exact List.suffix_refl _

theorem suffix_blockBreaks (indent fuel : Nat) (stop : Mark) (c : Cursor) :
    (blockBreaks indent fuel stop c).2.2.rest <:+ c.rest := by
  induction fuel generalizing stop c with
  | zero => exact List.suffix_refl _
  | succ fuel ih =>
      have hindent : (skipIndent indent c).rest <:+ c.rest := Cursor.suffix_skip _ c
      rw [blockBreaks]
      dsimp only
      split
      · exact ((ih _ _).trans (Cursor.suffix_lineBreak _)).trans hindent
      · exact hindent

theorem suffix_blockLines (folded : Bool) (indent fuel : Nat) (scan : BlockScan) :
    (scanBlockLines folded indent fuel scan).behind.rest <:+ scan.behind.rest := by
  induction fuel generalizing scan with
  | zero => exact List.suffix_refl _
  | succ fuel ih =>
      have hline := Cursor.suffix_takeWhile (fun ch => !isBreakOrEnd ch) scan.behind
      have hbreak := (Cursor.suffix_lineBreak _).trans hline
      have hbreaks := fun stop => (suffix_blockBreaks indent fuel stop _).trans hbreak
      rw [scanBlockLines]
      dsimp only
      split
      · exact (ih _).trans (hbreaks _)
      · exact hbreaks _

theorem scans_blockScalar {fuel : Nat} {folded : Bool} {indent : Int} (c : Cursor) :
    Scans cs c.next (scanBlockScalar fuel folded indent c) := by
  rw [scanBlockScalar]
  refine Scans.bind (scans_blockHeader c.next) fun header c₁ hc₁ => ?_
  refine Concludes.bind (concludes_headerEnd c₁) fun c₂ hc₂ => ?_
  have hc₂ := hc₂.trans hc₁
  rcases header with ⟨chomping, _ | digit⟩
  · have hbreaks := (suffix_detectIndentation fuel 0 c₂.mark c₂).trans hc₂
    refine scans_ok ?_
    split
    · exact (suffix_blockLines _ _ _ _).trans hbreaks
    · exact hbreaks
  · have hbreaks := fun indent => (suffix_blockBreaks indent fuel c₂.mark c₂).trans hc₂
    refine scans_ok ?_
    split
    · exact (suffix_blockLines _ _ _ _).trans (hbreaks _)
    · exact hbreaks _

end Block

end Yaml
end TextMate
