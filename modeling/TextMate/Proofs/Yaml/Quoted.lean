import Mathlib.Algebra.Group.Nat.Defs
import TextMate.Proofs.Yaml.Cursor
import TextMate.Proofs.Yaml.Pen
import TextMate.Yaml.Token.Scalar

/-!
# Scalars between quotes

What stands between quotes spells a text piece by piece: characters that stand
for themselves, blanks, line breaks with the indentation behind them, and
escapes.  The scanner reads a spelling as the text that it spells.  Breaks are
read as the scanner folds them, which need not be the way in which they were
meant.
-/

namespace TextMate
namespace Yaml

open Text Pen Cursor

/-!
## Spellings
-/

def quoteOf (double : Bool) : Char :=
  if double then '"' else '\''

def EndsSpace (rest : List Char) : Prop :=
  ∀ c ∈ rest.head?, isSpaceOrEnd c = false

def readBreak (c : Char) : Char :=
  if c == '\n' || c.toNat == 0x85 then '\n' else c

def readBreaks : List Char → List Char
  | [] => []
  | c :: cs => foldBreaks [readBreak c] (cs.map readBreak)

/-- What stands between quotes, and the text that it spells. -/
inductive Spells (double : Bool) : List Char → List Char → Prop where
  | nil : Spells double [] []
  | char {c : Char} {inner cs : List Char} :
      c ≠ quoteOf double -> (double = true → c ≠ '\\') -> isSpaceOrEnd c = false ->
        Spells double inner cs -> Spells double (c :: inner) (c :: cs)
  | blank {inner cs : List Char} :
      (∀ c ∈ inner.head?, c = ' ' ∨ isSpaceOrEnd c = false) -> Spells double inner cs ->
        Spells double (' ' :: inner) (' ' :: cs)
  | breaks {run inner cs : List Char} {n : Nat} :
      run ≠ [] -> (∀ c ∈ run, isKeptBreak c = true) -> 0 < n -> EndsSpace inner ->
        Spells double inner cs ->
          Spells double (run ++ (List.replicate n ' ' ++ inner)) (readBreaks run ++ cs)
  | quote {inner cs : List Char} :
      double = false -> Spells double inner cs ->
        Spells double ('\'' :: '\'' :: inner) ('\'' :: cs)
  | escape {c : Char} {inner cs : List Char} :
      double = true -> Spells double inner cs ->
        Spells double (escape c ++ inner) (c :: cs)
  | escapedBlank {inner cs : List Char} :
      double = true -> Spells double inner cs ->
        Spells double ('\\' :: ' ' :: inner) (' ' :: cs)
  | escapedBreak {inner cs : List Char} {n : Nat} :
      double = true -> 0 < n -> EndsSpace inner -> Spells double inner cs ->
        Spells double ('\\' :: (lineStart n ++ inner)) cs

/-!
## White space
-/

theorem isBreak_of_isKeptBreak {c : Char} (h : isKeptBreak c = true) : isBreak c = true := by
  simp only [isKeptBreak, isBreak, Bool.or_eq_true] at *
  rcases h with ((h | h) | h) | h
  · exact Or.inl (Or.inl (Or.inl (Or.inl h)))
  · exact Or.inl (Or.inl (Or.inr h))
  · exact Or.inl (Or.inr h)
  · exact Or.inr h

theorem isKeptBreak_of_mem_lineFeed : ∀ c ∈ ['\n'], isKeptBreak c = true := by
  intro c hc
  rw [List.mem_singleton] at hc
  subst hc
  rfl

theorem isSpaceOrEnd_of_isKeptBreak {c : Char} (h : isKeptBreak c = true) :
    isSpaceOrEnd c = true := by
  rw [isSpaceOrEnd, isBlankOrEnd, isBreakOrEnd, isBreak_of_isKeptBreak h]
  simp

theorem lineBreak_of_isKeptBreak {c : Cursor} {ch : Char} {rest : List Char}
    (hc : c.rest = ch :: rest) (h : isKeptBreak ch = true) :
    c.lineBreak = ([readBreak ch], c.next) := by
  have hreturn : (ch == '\r') = false := by
    refine beq_false_of_ne ?_
    rintro rfl
    cases h
  have hbreak := isBreak_of_isKeptBreak h
  rw [lineBreak, peek_cons hc, hreturn, hbreak]
  simp only [Bool.false_and, Bool.false_eq_true, if_false, Bool.false_or, readBreak]
  split <;> rfl

theorem headD_of_endsSpace {rest : List Char} (h : EndsSpace rest) (hne : rest ≠ []) :
    isSpaceOrEnd (rest.headD endMark) = false := by
  cases rest with
  | nil => exact absurd rfl hne
  | cons c rest => exact h c rfl

theorem quotedBreaks_run {run rest : List Char} {n : Nat} (hrun : ∀ c ∈ run, isKeptBreak c = true)
    (hn : 0 < n) (hrest : EndsSpace rest) (hne : rest ≠ []) {start : Mark} {fuel : Nat} {c : Cursor}
    (hc : c.rest = run ++ (List.replicate n ' ' ++ rest)) (hfuel : run.length < fuel) :
    Yaml.quotedBreaks start fuel c = .ok (run.map readBreak, c.skip (run.length + n)) := by
  induction run generalizing c fuel with
  | nil =>
      cases fuel with
      | zero => cases hfuel
      | succ fuel =>
          rw [List.nil_append] at hc
          have hskip : c.skipWhile (fun ch => ch == ' ' || ch == '\t') = c.skip n := by
            have h := @skipWhile_append (fun ch => ch == ' ' || ch == '\t') _ rest c hc
              (fun ch hch => by rw [List.eq_of_mem_replicate hch]; rfl)
              (fun ch hch => by
                simp [ne_blank_of_isSpaceOrEnd (hrest ch hch),
                  ne_tab_of_isSpaceOrEnd (hrest ch hch)])
            rwa [List.length_replicate] at h
          have hpeek : isBreak (c.skip n).peek = false := by
            have h := rest_skip_append hc
            rw [List.length_replicate] at h
            rw [peek, h]
            exact isBreak_of_isSpaceOrEnd (headD_of_endsSpace hrest hne)
          rw [Yaml.quotedBreaks, atDocumentBorder_blanks hc hn, if_neg Bool.false_ne_true, hskip]
          dsimp only
          rw [hpeek]
          simp [pure, Except.pure]
  | cons b run ih =>
      cases fuel with
      | zero => cases hfuel
      | succ fuel =>
          have hb := hrun b List.mem_cons_self
          have hpeek : c.peek = b := peek_cons hc
          have hborder : c.atDocumentBorder = false := by
            apply atDocumentBorder_eq_false <;> rw [hpeek] <;> rintro rfl <;> cases hb
          have hskip : c.skipWhile (fun ch => ch == ' ' || ch == '\t') = c := by
            refine @skipWhile_append (fun ch => ch == ' ' || ch == '\t') [] _ c hc (by simp) ?_
            rintro ch ⟨⟩
            cases hblank : b == ' ' || b == '\t' with
            | false => rfl
            | true =>
                simp only [Bool.or_eq_true, beq_iff_eq] at hblank
                rcases hblank with rfl | rfl <;> cases hb
          rw [Yaml.quotedBreaks, hborder, if_neg Bool.false_ne_true, hskip]
          dsimp only
          rw [hpeek, isBreak_of_isKeptBreak hb, if_pos rfl, lineBreak_of_isKeptBreak hc hb]
          dsimp only
          rw [ih (fun d hd => hrun d (List.mem_cons_of_mem _ hd)) (rest_next_cons hc)
            (Nat.lt_of_succ_lt_succ hfuel), ← skip_one, skip_skip, List.length_cons]
          simp only [bind, Except.bind, pure, Except.pure, List.map_cons, List.singleton_append]
          rw [show 1 + (run.length + n) = run.length + 1 + n by omega]

theorem takeWhile_spaces {n : Nat} {rest : List Char} {c : Cursor}
    (hc : c.rest = List.replicate n ' ' ++ rest)
    (hrest : ∀ ch ∈ rest.head?, ch ≠ ' ' ∧ ch ≠ '\t') :
    c.takeWhile (fun ch => ch == ' ' || ch == '\t') = (List.replicate n ' ', c.skip n) := by
  have h := @takeWhile_append (fun ch => ch == ' ' || ch == '\t') _ rest c hc
    (fun ch hch => by rw [List.eq_of_mem_replicate hch]; rfl)
    (fun ch hch => by simp [(hrest ch hch).1, (hrest ch hch).2])
  rwa [List.length_replicate] at h

theorem quotedSpaces_blanks {n : Nat} {rest : List Char} (hrest : EndsSpace rest)
    (hne : rest ≠ []) {start : Mark} {fuel : Nat} {c : Cursor}
    (hc : c.rest = List.replicate n ' ' ++ rest) :
    quotedSpaces fuel start c = .ok (List.replicate n ' ', c.skip n) := by
  have hhead := headD_of_endsSpace hrest hne
  have hpeek : (c.skip n).peek = rest.headD endMark := by
    have h := rest_skip_append hc
    rw [List.length_replicate] at h
    rw [peek, h]
  rw [quotedSpaces, takeWhile_spaces hc fun ch hch =>
    ⟨ne_blank_of_isSpaceOrEnd (hrest ch hch), ne_tab_of_isSpaceOrEnd (hrest ch hch)⟩]
  dsimp only
  rw [hpeek, isBreak_of_isSpaceOrEnd hhead, beq_false_of_ne (ne_endMark_of_isSpaceOrEnd hhead)]
  rfl

theorem quotedSpaces_breaks {run rest : List Char} {n : Nat} (hne : run ≠ [])
    (hrun : ∀ c ∈ run, isKeptBreak c = true) (hn : 0 < n) (hrest : EndsSpace rest)
    (hne' : rest ≠ []) {start : Mark} {fuel : Nat} {c : Cursor}
    (hc : c.rest = run ++ (List.replicate n ' ' ++ rest)) (hfuel : run.length < fuel) :
    quotedSpaces fuel start c = .ok (readBreaks run, c.skip (run.length + n)) := by
  cases run with
  | nil => exact absurd rfl hne
  | cons b run =>
      have hb := hrun b List.mem_cons_self
      have hpeek : c.peek = b := peek_cons hc
      have hend : (b == endMark) = false := by
        refine beq_false_of_ne ?_
        rintro rfl
        cases hb
      have htake : c.takeWhile (fun ch => ch == ' ' || ch == '\t') = ([], c) := by
        refine @takeWhile_spaces 0 _ c hc ?_
        rintro ch ⟨⟩
        constructor <;> rintro rfl <;> cases hb
      rw [quotedSpaces, htake]
      dsimp only
      rw [hpeek, hend, if_neg Bool.false_ne_true, isBreak_of_isKeptBreak hb, if_pos rfl,
        lineBreak_of_isKeptBreak hc hb]
      dsimp only
      rw [quotedBreaks_run (fun d hd => hrun d (List.mem_cons_of_mem _ hd)) hn hrest hne'
        (rest_next_cons hc) (Nat.lt_of_succ_lt (by simpa using hfuel)), ← skip_one, skip_skip,
        List.length_cons, show 1 + (run.length + n) = run.length + 1 + n by omega]
      rfl

/-!
## Escapes
-/

theorem ite_some_eq_some {b : Bool} {x y : Char} {other : Option Char}
    (h : (if b = true then some x else other) = some y) :
    (b = true ∧ x = y) ∨ other = some y := by
  cases b with
  | true => exact Or.inl ⟨rfl, Option.some.inj h⟩
  | false => exact Or.inr h

theorem shortEscape?_escapeLetter? {c letter : Char} (h : escapeLetter? c = some letter) :
    shortEscape? letter = some c.toNat := by
  rw [escapeLetter?] at h
  rcases ite_some_eq_some h with ⟨hself, rfl⟩ | h
  · rw [Bool.or_eq_true, beq_iff_eq, beq_iff_eq] at hself
    rcases hself with rfl | rfl <;> rfl
  iterate 13
    rcases ite_some_eq_some h with ⟨hcode, rfl⟩ | h
    · rw [beq_iff_eq] at hcode
      rw [hcode]
      rfl
  cases h

def isHex (ch : Char) : Bool :=
  ch.isDigit || ('a' <= ch && ch <= 'f') || ('A' <= ch && ch <= 'F')

theorem toUpper_hexDigit : ∀ n < 16, isHex (hexDigit n).toUpper = true
    ∧ (Decimal.digitValue? (hexDigit n).toUpper).getD 0 = n := by
  decide

def upperDigits (width n : Nat) : List Char :=
  (hexDigits width n).map Char.toUpper

theorem upperDigits_succ (width n : Nat) :
    upperDigits (width + 1) n = upperDigits width (n / 16) ++ [(hexDigit (n % 16)).toUpper] := by
  rw [upperDigits, hexDigits, List.map_append]
  rfl

theorem length_upperDigits (width n : Nat) : (upperDigits width n).length = width := by
  induction width generalizing n with
  | zero => rfl
  | succ width ih => rw [upperDigits_succ, List.length_append, ih, List.length_singleton]

theorem isHex_upperDigits (width n : Nat) : ∀ d ∈ upperDigits width n, isHex d = true := by
  induction width generalizing n with
  | zero =>
      rintro d ⟨⟩
  | succ width ih =>
      intro d hd
      rw [upperDigits_succ, List.mem_append, List.mem_singleton] at hd
      rcases hd with hd | rfl
      · exact ih _ d hd
      · exact (toUpper_hexDigit _ (Nat.mod_lt _ (by decide))).1

theorem foldl_upperDigits {width n : Nat} (h : n < 16 ^ width) :
    (upperDigits width n).foldl (fun n d => n * 16 + (Decimal.digitValue? d).getD 0) 0 = n := by
  induction width generalizing n with
  | zero => exact (Nat.lt_one_iff.mp h).symm
  | succ width ih =>
      rw [upperDigits_succ, List.foldl_append, ih (by rw [Nat.pow_succ] at h; omega),
        List.foldl_cons, List.foldl_nil, (toUpper_hexDigit _ (Nat.mod_lt _ (by decide))).2]
      omega

theorem map_peekAt {cs rest : List Char} {c : Cursor} (hc : c.rest = cs ++ rest) :
    (List.range cs.length).map c.peekAt = cs := by
  apply List.ext_getElem
  · simp
  · intro i hi hi'
    simp [peekAt, hc, List.getElem?_append_left hi', hi']

theorem scanEscape_digits {letter : Char} {width n : Nat} {rest : List Char}
    (hshort : shortEscape? letter = none) (hlength : codeEscapeLength? letter = some width)
    (hn : n < 16 ^ width) (hcode : n < 0x110000) {start : Mark} {fuel : Nat} {c : Cursor}
    (hc : c.rest = letter :: (upperDigits width n ++ rest)) :
    scanEscape fuel start c = .ok ([n], c.skip (width + 1)) := by
  have hrest := rest_next_cons hc
  have hhex : firstNonHex c.next width = none := by
    have hdigits := map_peekAt hrest
    rw [length_upperDigits] at hdigits
    rw [firstNonHex, hdigits, List.find?_eq_none]
    intro d hd
    have h := isHex_upperDigits _ _ d hd
    rw [isHex] at h
    simp [h]
  have htake : c.next.rest.take width = upperDigits width n := by
    rw [hrest]
    exact List.take_left' (length_upperDigits width n)
  rw [scanEscape, peek_cons hc]
  dsimp only
  rw [hshort, hlength]
  dsimp only
  rw [hhex, htake, foldl_upperDigits hn]
  dsimp only
  have hsmall : ¬ 0x80000000 ≤ n := by omega
  rw [if_neg hsmall, if_neg (Nat.not_le.mpr hcode), Nat.add_comm width, ← skip_skip, skip_one]
  rfl

theorem escape_cases (ch : Char) :
    (∃ letter, shortEscape? letter = some ch.toNat ∧ escape ch = ['\\', letter])
      ∨ ∃ letter width, shortEscape? letter = none ∧ codeEscapeLength? letter = some width
        ∧ ch.toNat < 16 ^ width ∧ escape ch = '\\' :: letter :: upperDigits width ch.toNat := by
  cases hletter : escapeLetter? ch with
  | some letter =>
      refine Or.inl ⟨letter, shortEscape?_escapeLetter? hletter, ?_⟩
      rw [escape, hletter]
  | none =>
      refine Or.inr ?_
      rw [escape, hletter]
      dsimp only
      split
      next hcode => exact ⟨'x', 2, rfl, rfl, by omega, rfl⟩
      next =>
        split
        next hcode => exact ⟨'u', 4, rfl, rfl, by omega, rfl⟩
        next =>
          have hcode := toNat_lt ch
          exact ⟨'U', 8, rfl, rfl, by omega, rfl⟩

theorem exists_escape_eq (ch : Char) : ∃ more, escape ch = '\\' :: more := by
  rcases escape_cases ch with ⟨letter, _, h⟩ | ⟨letter, width, _, _, _, h⟩
  · exact ⟨_, h⟩
  · exact ⟨_, h⟩

theorem scanEscape_escape (ch : Char) {rest : List Char} {start : Mark} {fuel : Nat} {c : Cursor}
    (hc : '\\' :: c.rest = escape ch ++ rest) :
    scanEscape fuel start c = .ok ([ch.toNat], c.skip ((escape ch).length - 1)) := by
  rcases escape_cases ch with ⟨letter, hshort, hescape⟩ |
    ⟨letter, width, hshort, hlength, hwidth, hescape⟩
  · rw [hescape] at hc ⊢
    have hc : c.rest = letter :: rest := List.tail_eq_of_cons_eq hc
    rw [scanEscape, peek_cons hc]
    dsimp only
    rw [hshort]
    rfl
  · rw [hescape] at hc ⊢
    have hc : c.rest = letter :: (upperDigits width ch.toNat ++ rest) :=
      List.tail_eq_of_cons_eq hc
    rw [scanEscape_digits hshort hlength hwidth (toNat_lt ch) hc]
    simp [length_upperDigits]

theorem scanEscape_blank {rest : List Char} {start : Mark} {fuel : Nat} {c : Cursor}
    (hc : c.rest = ' ' :: rest) : scanEscape fuel start c = .ok ([' '.toNat], c.next) := by
  rw [scanEscape, peek_cons hc]
  rfl

theorem scanEscape_lineStart {n : Nat} {rest : List Char} (hn : 0 < n) (hrest : EndsSpace rest)
    (hne : rest ≠ []) {start : Mark} {fuel : Nat} {c : Cursor} (hc : c.rest = lineStart n ++ rest)
    (hfuel : 0 < fuel) : scanEscape fuel start c = .ok ([], c.skip (n + 1)) := by
  have hbreaks := @quotedBreaks_run [] rest n (by simp) hn hrest hne start fuel c.next
    (rest_next_cons hc) hfuel
  rw [scanEscape, peek_cons hc]
  dsimp only
  rw [show shortEscape? '\n' = none from rfl, show codeEscapeLength? '\n' = none from rfl]
  dsimp only
  rw [if_pos (show isBreak '\n' = true from rfl), lineBreak_lineFeed hc, hbreaks, ← skip_one,
    skip_skip, List.length_nil, Nat.zero_add, Nat.add_comm 1]
  rfl

/-!
## Reading a spelling
-/

section Steps

variable {double : Bool} {start : Mark} {fuel : Nat} {c behind : Cursor} {ch : Char}
  {rest : List Char} {codes : Codes}

theorem scanQuotedCodes_char (hc : c.rest = ch :: rest) (hquote : ch ≠ quoteOf double)
    (hescape : double = true → ch ≠ '\\') (hspace : isSpaceOrEnd ch = false)
    (h : scanQuotedCodes double start fuel c.next = .ok (codes, behind)) :
    scanQuotedCodes double start (fuel + 1) c = .ok (ch.toNat :: codes, behind) := by
  rw [scanQuotedCodes, peek_cons hc, hspace]
  cases double with
  | false =>
      have hne : ch ≠ '\'' := hquote
      simp [h, hne, bind, Except.bind, pure, Except.pure]
  | true =>
      have hne : ch ≠ '"' := hquote
      simp [h, hne, hescape, bind, Except.bind, pure, Except.pure]

theorem scanQuotedCodes_space {spaces : List Char} {after : Cursor} (hc : c.rest = ch :: rest)
    (hspace : isSpaceOrEnd ch = true)
    (hspaces : quotedSpaces fuel start c = .ok (spaces, after))
    (h : scanQuotedCodes double start fuel after = .ok (codes, behind)) :
    scanQuotedCodes double start (fuel + 1) c =
      .ok (Codes.ofChars spaces ++ codes, behind) := by
  have hsingle : ch ≠ '\'' := by
    rintro rfl
    cases hspace
  have hdouble : ch ≠ '"' := by
    rintro rfl
    cases hspace
  have hslash : ch ≠ '\\' := by
    rintro rfl
    cases hspace
  rw [scanQuotedCodes, peek_cons hc, hspace, hspaces]
  cases double <;> simp [h, hsingle, hdouble, hslash, bind, Except.bind, pure, Except.pure]

theorem scanQuotedCodes_quote (hc : c.rest = '\'' :: '\'' :: rest)
    (h : scanQuotedCodes false start fuel (c.skip 2) = .ok (codes, behind)) :
    scanQuotedCodes false start (fuel + 1) c = .ok ('\''.toNat :: codes, behind) := by
  have hnext : c.peekAt 1 = '\'' := by
    rw [peekAt, hc]
    rfl
  rw [scanQuotedCodes, peek_cons hc, hnext]
  simp [h, bind, Except.bind, pure, Except.pure]

theorem scanQuotedCodes_escape {piece : Codes} {after : Cursor} (hc : c.rest = '\\' :: rest)
    (hpiece : scanEscape fuel start c.next = .ok (piece, after))
    (h : scanQuotedCodes true start fuel after = .ok (codes, behind)) :
    scanQuotedCodes true start (fuel + 1) c = .ok (piece ++ codes, behind) := by
  rw [scanQuotedCodes, peek_cons hc, hpiece]
  simp [h, bind, Except.bind, pure, Except.pure]

theorem scanQuotedCodes_end (hc : c.rest = quoteOf double :: rest)
    (hrest : double = true ∨ rest.headD endMark ≠ '\'') :
    scanQuotedCodes double start (fuel + 1) c = .ok ([], c.next) := by
  rw [scanQuotedCodes, peek_cons hc]
  cases double with
  | false =>
      have hnext : c.peekAt 1 ≠ '\'' := by
        rw [peekAt, hc]
        rcases hrest with hrest | hrest
        · cases hrest
        · cases rest <;> exact hrest
      simp [quoteOf, hnext, pure, Except.pure]
  | true => simp [quoteOf, pure, Except.pure]

end Steps

/-- What is read, in front of a quote and a rest, as some text. -/
def IsReadAs (double : Bool) (rest inner cs : List Char) : Prop :=
  ∀ (start : Mark) (fuel : Nat) (c : Cursor), c.rest = inner ++ quoteOf double :: rest →
    inner.length < fuel →
      scanQuotedCodes double start fuel c = .ok (Codes.ofChars cs, c.skip (inner.length + 1))

theorem isReadAs_blanks {double : Bool} {rest inner cs : List Char}
    (h : IsReadAs double rest inner cs) (hends : EndsSpace (inner ++ quoteOf double :: rest))
    (n : Nat) :
    IsReadAs double rest (List.replicate n ' ' ++ inner) (List.replicate n ' ' ++ cs) := by
  intro start fuel c hc hfuel
  cases n with
  | zero => exact h start fuel c hc hfuel
  | succ n =>
      cases fuel with
      | zero => cases hfuel
      | succ fuel =>
          rw [List.append_assoc] at hc
          rw [List.length_append, List.length_replicate] at hfuel ⊢
          have hafter := rest_skip_append hc
          rw [List.length_replicate] at hafter
          have hspaces := @quotedSpaces_blanks (n + 1) _ hends (by simp) start fuel c hc
          have hread := h start fuel _ hafter (by omega)
          rw [skip_skip, ← Nat.add_assoc] at hread
          rw [scanQuotedCodes_space hc rfl hspaces hread]
          simp [Codes.ofChars]

theorem endsSpace_append_quote {double : Bool} {inner rest : List Char} (h : EndsSpace inner) :
    EndsSpace (inner ++ quoteOf double :: rest) := by
  cases inner with
  | nil =>
      rintro c ⟨⟩
      cases double <;> rfl
  | cons d inner => exact h

namespace IsReadAs

variable {double : Bool} {rest inner cs : List Char}

theorem nil (hrest : double = true ∨ rest.headD endMark ≠ '\'') : IsReadAs double rest [] [] := by
  intro start fuel c hc hfuel
  cases fuel with
  | zero => cases hfuel
  | succ fuel => exact scanQuotedCodes_end hc hrest

theorem char {ch : Char} (hquote : ch ≠ quoteOf double) (hescape : double = true → ch ≠ '\\')
    (hspace : isSpaceOrEnd ch = false) (h : IsReadAs double rest inner cs) :
    IsReadAs double rest (ch :: inner) (ch :: cs) := by
  intro start fuel c hc hfuel
  cases fuel with
  | zero => cases hfuel
  | succ fuel =>
      have hread := h start fuel c.next (rest_next_cons hc) (Nat.lt_of_succ_lt_succ hfuel)
      exact scanQuotedCodes_char hc hquote hescape hspace hread

theorem breaks {run : List Char} {m : Nat} (hne : run ≠ [])
    (hrun : ∀ c ∈ run, isKeptBreak c = true) (hm : 0 < m) (hends : EndsSpace inner)
    (h : IsReadAs double rest inner cs) :
    IsReadAs double rest (run ++ (List.replicate m ' ' ++ inner)) (readBreaks run ++ cs) := by
  intro start fuel c hc hfuel
  cases fuel with
  | zero => cases hfuel
  | succ fuel =>
      simp only [List.append_assoc, List.length_append, List.length_replicate] at hc hfuel ⊢
      have hspaces := @quotedSpaces_breaks run _ m hne hrun hm (endsSpace_append_quote hends)
        (by simp) start fuel c hc (by omega)
      have hafter : (c.skip (run.length + m)).rest = inner ++ quoteOf double :: rest := by
        have h := rest_skip_append (rest_skip_append hc)
        rwa [List.length_replicate, skip_skip] at h
      have hread := h start fuel _ hafter (by omega)
      rw [skip_skip, ← Nat.add_assoc] at hread
      cases run with
      | nil => exact absurd rfl hne
      | cons b run =>
          have hb : isSpaceOrEnd b = true :=
            isSpaceOrEnd_of_isKeptBreak (hrun b List.mem_cons_self)
          rw [scanQuotedCodes_space hc hb hspaces hread, Nat.add_assoc (b :: run).length]
          simp [Codes.ofChars]

theorem quote (h : IsReadAs false rest inner cs) :
    IsReadAs false rest ('\'' :: '\'' :: inner) ('\'' :: cs) := by
  intro start fuel c hc hfuel
  cases fuel with
  | zero => cases hfuel
  | succ fuel =>
      have hafter : (c.skip 2).rest = inner ++ quoteOf false :: rest := by
        rw [rest_skip, hc]
        rfl
      have hread := h start fuel _ hafter (Nat.lt_of_succ_lt (Nat.lt_of_succ_lt_succ hfuel))
      rw [skip_skip, Nat.add_comm] at hread
      exact scanQuotedCodes_quote hc hread

theorem behind_slash {more ds : List Char}
    (hpiece : ∀ (start : Mark) (fuel : Nat) (c : Cursor),
      c.rest = more ++ (inner ++ quoteOf true :: rest) → 0 < fuel →
        scanEscape fuel start c = .ok (Codes.ofChars ds, c.skip more.length))
    (h : IsReadAs true rest inner cs) :
    IsReadAs true rest ('\\' :: (more ++ inner)) (ds ++ cs) := by
  intro start fuel c hc hfuel
  cases fuel with
  | zero => cases hfuel
  | succ fuel =>
      simp only [List.cons_append, List.append_assoc, List.length_cons, List.length_append]
        at hc hfuel
      have hnext := rest_next_cons hc
      have hread := h start fuel _ (rest_skip_append hnext) (by omega)
      have hlength : ('\\' :: (more ++ inner)).length + 1 =
          more.length + (inner.length + 1) + 1 := by
        rw [List.length_cons, List.length_append]
        omega
      rw [scanQuotedCodes_escape hc (hpiece start fuel _ hnext (by omega)) hread, skip_skip,
        hlength, skip_succ]
      simp [Codes.ofChars]

theorem escape (ch : Char) (h : IsReadAs true rest inner cs) :
    IsReadAs true rest (Pen.escape ch ++ inner) (ch :: cs) := by
  rcases exists_escape_eq ch with ⟨more, hescape⟩
  rw [hescape]
  refine @behind_slash rest inner cs more [ch] ?_ h
  intro start fuel c hc _
  have hpiece := @scanEscape_escape ch (inner ++ quoteOf true :: rest) start fuel c
    (by rw [hc, hescape]; rfl)
  rw [hescape, List.length_cons, Nat.add_sub_cancel] at hpiece
  exact hpiece

theorem escapedBlank (h : IsReadAs true rest inner cs) :
    IsReadAs true rest ('\\' :: ' ' :: inner) (' ' :: cs) := by
  refine @behind_slash rest inner cs [' '] [' '] ?_ h
  intro start fuel c hc _
  exact scanEscape_blank hc

theorem escapedBreak {m : Nat} (hm : 0 < m) (hends : EndsSpace inner)
    (h : IsReadAs true rest inner cs) :
    IsReadAs true rest ('\\' :: (lineStart m ++ inner)) cs := by
  refine @behind_slash rest inner cs (lineStart m) [] ?_ h
  intro start fuel c hc hfuel
  rw [length_lineStart]
  exact scanEscape_lineStart hm (endsSpace_append_quote hends) (by simp) hc hfuel

end IsReadAs

theorem eq_zero_of_breaks {run inner : List Char} {n : Nat} (hne : run ≠ [])
    (hrun : ∀ c ∈ run, isKeptBreak c = true)
    (hn : 0 < n → ∀ c ∈ (run ++ inner).head?, c = ' ' ∨ isSpaceOrEnd c = false) : n = 0 := by
  rcases Nat.eq_zero_or_pos n with hzero | hpos
  · exact hzero
  · cases run with
    | nil => exact absurd rfl hne
    | cons b run =>
        have hb := hrun b List.mem_cons_self
        rcases hn hpos b rfl with rfl | hspace
        · cases hb
        · have hbreak := isBreak_of_isSpaceOrEnd hspace
          rw [isBreak_of_isKeptBreak hb] at hbreak
          cases hbreak

theorem Spells.isReadAs {double : Bool} {inner cs rest : List Char} (h : Spells double inner cs)
    (hrest : double = true ∨ rest.headD endMark ≠ '\'') (n : Nat)
    (hn : 0 < n → ∀ c ∈ inner.head?, c = ' ' ∨ isSpaceOrEnd c = false) :
    IsReadAs double rest (List.replicate n ' ' ++ inner) (List.replicate n ' ' ++ cs) := by
  -- Blanks are read together with those behind them, so their number is carried along.
  induction h generalizing n with
  | nil =>
      apply isReadAs_blanks (.nil hrest)
      rintro c ⟨⟩
      cases double <;> rfl
  | char hquote hescape hspace _ ih =>
      apply isReadAs_blanks (.char hquote hescape hspace (ih 0 (by simp)))
      rintro c ⟨⟩
      exact hspace
  | @blank inner cs hhead _ ih =>
      have hread := ih (n + 1) (fun _ => hhead)
      rw [List.replicate_succ'] at hread
      simpa using hread
  | breaks hne hrun hm hends _ ih =>
      rw [eq_zero_of_breaks hne hrun hn]
      exact .breaks hne hrun hm hends (ih 0 (by simp))
  | quote hsingle _ ih =>
      subst hsingle
      apply isReadAs_blanks (.quote (ih 0 (by simp)))
      rintro c ⟨⟩
      rfl
  | @escape ch inner cs hdouble _ ih =>
      subst hdouble
      apply isReadAs_blanks (.escape ch (ih 0 (by simp)))
      rcases exists_escape_eq ch with ⟨more, hescape⟩
      rw [hescape]
      rintro c ⟨⟩
      rfl
  | escapedBlank hdouble _ ih =>
      subst hdouble
      apply isReadAs_blanks (.escapedBlank (ih 0 (by simp)))
      rintro c ⟨⟩
      rfl
  | escapedBreak hdouble hm hends _ ih =>
      subst hdouble
      apply isReadAs_blanks (.escapedBreak hm hends (ih 0 (by simp)))
      rintro c ⟨⟩
      rfl

/-- A scalar between quotes is read as the text that its spelling spells. -/
theorem scanQuoted_spells {double : Bool} {inner cs rest : List Char} (h : Spells double inner cs)
    (hrest : double = true ∨ rest.headD endMark ≠ '\'') {fuel : Nat} {c : Cursor}
    (hc : c.rest = quoteOf double :: (inner ++ quoteOf double :: rest))
    (hfuel : inner.length < fuel) :
    scanQuoted fuel double c = .ok (⟨Codes.ofChars cs, false⟩, c.skip (inner.length + 2)) := by
  have hread := h.isReadAs hrest 0 (by simp) c.mark fuel c.next (rest_next_cons hc) hfuel
  rw [scanQuoted, hread]
  rfl

end Yaml
end TextMate
