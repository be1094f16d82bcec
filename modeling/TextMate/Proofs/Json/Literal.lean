import TextMate.Json.Printer
import TextMate.Json.Reader

/-!
# Reading string literals

The two layouts write string literals with different characters: one keeps all
characters but the controls, the other writes everything outside printable basic
Latin by codes of sixteen bits.  Both are read back as the text, character by
character: a pair of codes is read together as the character that it stands for.
-/

namespace TextMate
namespace Json

open Text

variable {ascii : Bool}

/-!
## Codes
-/

theorem hex?_hexDigit : ∀ n < 16, fourDigits?.hex? (hexDigit n) = some n := by
  decide

theorem fourDigits?_hexDigits {n : Nat} (h : n < 0x10000) (rest : List Char) :
    fourDigits? (hexDigits 4 n ++ rest) = some n := by
  have hdigits : hexDigits 4 n ++ rest =
      hexDigit (n / 16 / 16 / 16 % 16) :: hexDigit (n / 16 / 16 % 16) ::
        hexDigit (n / 16 % 16) :: hexDigit (n % 16) :: rest := by
    simp [hexDigits]
  rw [hdigits, fourDigits?, hex?_hexDigit _ (by omega), hex?_hexDigit _ (by omega),
    hex?_hexDigit _ (by omega), hex?_hexDigit _ (by omega)]
  show some _ = some _
  congr 1
  omega

theorem hexDigits_four (n : Nat) : ∃ a b c d, hexDigits 4 n = [a, b, c, d] :=
  ⟨_, _, _, _, rfl⟩

theorem drop_hexDigits (n : Nat) (rest : List Char) : (hexDigits 4 n ++ rest).drop 4 = rest := by
  simp [hexDigits]

theorem readCode_single (p : Nat) {n : Nat} {rest : List Char} (hn : n < 0x10000)
    (hhigh : ¬ (0xD800 ≤ n ∧ n < 0xDC00)) (hrest : rest ≠ []) :
    readCode ⟨p, hexDigits 4 n ++ rest⟩ = .ok (n, 4) := by
  have hempty : rest.isEmpty = false := by
    simpa using hrest
  have hpair : (0xD800 <= n && n < 0xDC00) = false := by
    rw [← Bool.not_eq_true]
    simpa using hhigh
  simp only [readCode, drop_hexDigits, hempty, fourDigits?_hexDigits hn, hpair]
  rfl

theorem readCode_pair (p : Nat) {high low : Nat} {rest : List Char}
    (hhigh : 0xD800 ≤ high ∧ high < 0xDC00) (hlow : 0xDC00 ≤ low ∧ low < 0xE000)
    (hrest : rest ≠ []) :
    readCode ⟨p, hexDigits 4 high ++ ('\\' :: 'u' :: (hexDigits 4 low ++ rest))⟩ =
      .ok (0x10000 + (high - 0xD800) * 0x400 + (low - 0xDC00), 10) := by
  have hfirst : (0xD800 <= high && high < 0xDC00) = true := by
    simpa using hhigh
  have hsecond : (0xDC00 <= low && low < 0xE000) = true := by
    simpa using hlow
  have hdigits := fourDigits?_hexDigits (show low < 0x10000 by omega) []
  rcases hexDigits_four low with ⟨x, y, z, w, hfour⟩
  rw [hfour, List.append_nil] at hdigits
  cases rest with
  | nil => exact absurd rfl hrest
  | cons c rest =>
      simp only [readCode, drop_hexDigits, fourDigits?_hexDigits (show high < 0x10000 by omega),
        hfirst, hfour, List.cons_append, List.nil_append, hdigits, hsecond]
      rfl

/-!
## Characters
-/

/-- A character has a short escape, or is written by its code, or stands for itself. -/
theorem literalChar_cases (ascii : Bool) (c : Char) :
    (∃ e, literalChar ascii c = ['\\', e] ∧ unescape? e = some c ∧ e ≠ 'u')
      ∨ literalChar ascii c = codeEscape c
      ∨ (literalChar ascii c = [c] ∧ c ≠ '"' ∧ c ≠ '\\' ∧ 0x20 ≤ c.toNat) := by
  unfold literalChar
  cases he : shortEscape? c with
  | some e =>
      refine Or.inl ⟨e, rfl, ?_⟩
      unfold shortEscape? at he
      repeat' split at he
      all_goals cases he
      all_goals
        rename_i hc
        rw [beq_iff_eq] at hc
        subst hc
        decide
  | none =>
      have hquote : c ≠ '"' := by
        rintro rfl
        cases he
      have hbackslash : c ≠ '\\' := by
        rintro rfl
        cases he
      dsimp only
      split
      · exact Or.inr (Or.inl rfl)
      · rename_i hplain
        refine Or.inr (Or.inr ⟨rfl, hquote, hbackslash, ?_⟩)
        simp only [Bool.or_eq_true, decide_eq_true_eq, not_or] at hplain
        omega

theorem length_literalChar_pos (c : Char) : 0 < (literalChar ascii c).length := by
  rcases literalChar_cases ascii c with ⟨e, h, _⟩ | h | ⟨h, _⟩
  · simp [h]
  · rw [h, codeEscape]
    split <;> simp
  · simp [h]

theorem readCodes_escape (start fuel p : Nat) {c e : Char} (rest : List Char)
    (he : unescape? e = some c) (hu : e ≠ 'u') :
    readCodes start (fuel + 1) ⟨p, '\\' :: e :: rest⟩ =
      (readCodes start fuel ⟨p + 2, rest⟩).map fun r => (c.toNat :: r.1, r.2) := by
  rw [readCodes]
  dsimp only
  split
  · rename_i heq
    cases heq
  · rename_i heq
    cases heq
  · rename_i heq
    cases heq
  · rename_i heq
    cases heq
    exact absurd rfl hu
  · rename_i heq
    cases heq
    rw [he]
    cases hr : readCodes start fuel ⟨p + 2, rest⟩ <;>
      simp [Cursor.skip, hr, Except.map, bind, Except.bind, pure, Except.pure]
  · rename_i hno heq
    cases heq
    exact absurd rfl (hno e rest rfl)

theorem readCodes_escaped (start fuel p : Nat) {n : Nat} {cs rest : List Char}
    (hcode : readCode ⟨p + 2, cs ++ rest⟩ = .ok (n, cs.length)) :
    readCodes start (fuel + 1) ⟨p, '\\' :: 'u' :: (cs ++ rest)⟩ =
      (readCodes start fuel ⟨p + (cs.length + 2), rest⟩).map fun r => (n :: r.1, r.2) := by
  have hstart : Cursor.skip 2 ⟨p, '\\' :: 'u' :: (cs ++ rest)⟩ = ⟨p + 2, cs ++ rest⟩ := rfl
  have hskip : Cursor.skip (2 + cs.length) ⟨p, '\\' :: 'u' :: (cs ++ rest)⟩ =
      ⟨p + (cs.length + 2), rest⟩ := by
    rw [Nat.add_comm 2]
    simp [Cursor.skip]
  rw [readCodes]
  simp only [hstart, hcode, bind, Except.bind, hskip]
  cases readCodes start fuel ⟨p + (cs.length + 2), rest⟩ <;> rfl

theorem readCodes_codeEscape (start fuel p : Nat) (c : Char) {rest : List Char}
    (hrest : rest ≠ []) :
    readCodes start (fuel + 1) ⟨p, codeEscape c ++ rest⟩ =
      (readCodes start fuel ⟨p + (codeEscape c).length, rest⟩).map
        fun r => (c.toNat :: r.1, r.2) := by
  by_cases hword : c.toNat < 0x10000
  · have hescape : codeEscape c = '\\' :: 'u' :: hexDigits 4 c.toNat := by
      simp [codeEscape, hword]
    have hhigh : ¬ (0xD800 ≤ c.toNat ∧ c.toNat < 0xDC00) := by
      have hhalf := isHalf_toNat c
      simp only [isHalf, Bool.and_eq_false_iff, decide_eq_false_iff_not] at hhalf
      omega
    rw [hescape]
    exact readCodes_escaped start fuel p (readCode_single _ hword hhigh hrest)
  · have hlast : c.toNat < 0x110000 := toNat_lt c
    generalize hm : c.toNat - 0x10000 = m
    have hescape : codeEscape c = '\\' :: 'u' :: (hexDigits 4 (0xD800 + m / 0x400)
        ++ '\\' :: 'u' :: hexDigits 4 (0xDC00 + m % 0x400)) := by
      simp [codeEscape, hword, hm]
    have hcode := @readCode_pair (p + 2) (0xD800 + m / 0x400) (0xDC00 + m % 0x400) rest
      (by omega) (by omega) hrest
    have hsame : 0x10000 + (0xD800 + m / 0x400 - 0xD800) * 0x400
        + (0xDC00 + m % 0x400 - 0xDC00) = c.toNat := by
      omega
    rw [hsame] at hcode
    rw [hescape, List.cons_append, List.cons_append]
    apply readCodes_escaped start fuel p
    rw [List.append_assoc]
    exact hcode

theorem readCodes_cons (start fuel p : Nat) {c : Char} (rest : List Char)
    (hquote : c ≠ '"') (hbackslash : c ≠ '\\') (hn : 0x20 ≤ c.toNat) :
    readCodes start (fuel + 1) ⟨p, c :: rest⟩ =
      (readCodes start fuel ⟨p + 1, rest⟩).map fun r => (c.toNat :: r.1, r.2) := by
  have hlow : ¬ c.toNat < 0x20 := by omega
  rw [readCodes]
  dsimp only
  split
  · rename_i heq
    cases heq
  · rename_i heq
    cases heq
    exact absurd rfl hquote
  · rename_i heq
    cases heq
    exact absurd rfl hbackslash
  · rename_i heq
    cases heq
    exact absurd rfl hbackslash
  · rename_i heq
    cases heq
    exact absurd rfl hbackslash
  · rename_i heq
    cases heq
    rw [if_neg hlow]
    cases hr : readCodes start fuel ⟨p + 1, rest⟩ <;>
      simp [Cursor.next, hr, Except.map, bind, Except.bind, pure, Except.pure]

theorem readCodes_literalChar (start fuel p : Nat) (c : Char) {rest : List Char}
    (hrest : rest ≠ []) :
    readCodes start (fuel + 1) ⟨p, literalChar ascii c ++ rest⟩ =
      (readCodes start fuel ⟨p + (literalChar ascii c).length, rest⟩).map
        fun r => (c.toNat :: r.1, r.2) := by
  rcases literalChar_cases ascii c with ⟨e, h, hunescape, hu⟩ | h | ⟨h, hquote, hback, hn⟩
  · rw [h]
    exact readCodes_escape start fuel p rest hunescape hu
  · rw [h]
    exact readCodes_codeEscape start fuel p c hrest
  · rw [h]
    exact readCodes_cons start fuel p rest hquote hback hn

/-!
## Literals
-/

theorem readCodes_literal (start : Nat) (cs rest : List Char) :
    ∀ fuel p, cs.length < fuel →
      readCodes start fuel ⟨p, cs.flatMap (literalChar ascii) ++ '"' :: rest⟩ =
        .ok (Codes.ofChars cs, ⟨p + (cs.flatMap (literalChar ascii)).length + 1, rest⟩) := by
  induction cs with
  | nil =>
      intro fuel p hfuel
      cases fuel with
      | zero => cases hfuel
      | succ fuel => rfl
  | cons c cs ih =>
      intro fuel p hfuel
      cases fuel with
      | zero => cases hfuel
      | succ fuel =>
          rw [List.flatMap_cons, List.append_assoc, readCodes_literalChar _ _ _ _ (by simp),
            ih fuel _ (by simpa using hfuel)]
          simp only [Except.map, List.length_append]
          rw [show p + (literalChar ascii c).length + (cs.flatMap (literalChar ascii)).length + 1 =
            p + ((literalChar ascii c).length + (cs.flatMap (literalChar ascii)).length) + 1 by
              omega]
          rfl

theorem length_le_flatMap_literalChar (cs : List Char) :
    cs.length ≤ (cs.flatMap (literalChar ascii)).length := by
  induction cs with
  | nil => exact Nat.le_refl _
  | cons c cs ih =>
      have hc := @length_literalChar_pos ascii c
      rw [List.flatMap_cons, List.length_append, List.length_cons]
      omega

theorem readText_literal (p : Nat) (s : String) (rest : List Char) :
    readText ⟨p, s.toList.flatMap (literalChar ascii) ++ '"' :: rest⟩ =
      .ok (.text s, ⟨p + (s.toList.flatMap (literalChar ascii)).length + 1, rest⟩) := by
  have hlength := @length_le_flatMap_literalChar ascii s.toList
  have hfuel : s.toList.length <
      (s.toList.flatMap (literalChar ascii) ++ '"' :: rest).length + 1 := by
    rw [List.length_append]
    omega
  rw [readText, readCodes_literal _ _ _ _ _ hfuel]
  simp [bind, Except.bind, pure, Except.pure]

end Json
end TextMate
