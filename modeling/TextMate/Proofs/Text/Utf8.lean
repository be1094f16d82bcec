import TextMate.Text.Utf8

/-!
# Texts that are encoded and decoded

The bytes of a text are decoded to the text, character by character: the start
byte tells how many bytes follow and within which bounds the first of them lies.
A text whose line ends are line feeds keeps them.
-/

namespace TextMate
namespace Text

/-!
## One character
-/

section Char

variable {position k : Nat} {pending : PartialChar} {rest : List UInt8}

theorem toNat_ofNat_byte {n : Nat} (h : n < 256) : (UInt8.ofNat n).toNat = n := by
  rw [UInt8.toNat_ofNat']
  exact Nat.mod_eq_of_lt h

theorem decodeFrom_last (hk : k < 0x40) (howed : pending.owed ≤ 1)
    (hlow : pending.low ≤ 0x80 + k) (hhigh : 0x80 + k ≤ pending.high) :
    decodeFrom position (some pending) (UInt8.ofNat (0x80 + k) :: rest) =
      (decodeFrom (position + 1) none rest).map (Char.ofNat (pending.code * 0x40 + k) :: ·) := by
  have hbyte : (UInt8.ofNat (0x80 + k)).toNat = 0x80 + k := toNat_ofNat_byte (by omega)
  rw [decodeFrom, hbyte, if_pos (by simp [hlow, hhigh]), if_pos howed, Nat.add_sub_cancel_left]
  cases decodeFrom (position + 1) none rest with
  | ok cs => rfl
  | error fault => rfl

theorem decodeFrom_more (hk : k < 0x40) (howed : 1 < pending.owed)
    (hlow : pending.low ≤ 0x80 + k) (hhigh : 0x80 + k ≤ pending.high) :
    decodeFrom position (some pending) (UInt8.ofNat (0x80 + k) :: rest) =
      decodeFrom (position + 1)
        (some ⟨pending.code * 0x40 + k, pending.owed - 1, 0x80, 0xBF,
          UInt8.ofNat (0x80 + k) :: pending.read⟩) rest := by
  have hbyte : (UInt8.ofNat (0x80 + k)).toNat = 0x80 + k := toNat_ofNat_byte (by omega)
  rw [decodeFrom, hbyte, if_pos (by simp [hlow, hhigh]), if_neg (by omega),
    Nat.add_sub_cancel_left]

theorem decodeFrom_start {start : UInt8} {owed low high : Nat}
    (hshape : continuationShape start = some (owed + 1, low, high)) :
    decodeFrom position none (start :: rest) =
      decodeFrom (position + 1) (some ⟨startBits start (owed + 1), owed + 1, low, high, [start]⟩)
        rest := by
  rw [decodeFrom, hshape]
  rfl

theorem continuationShape_one {n : Nat} (h : n < 0x80) :
    continuationShape (UInt8.ofNat n) = some (0, 0x80, 0xBF) := by
  rw [continuationShape, toNat_ofNat_byte (by omega)]
  exact if_pos h

theorem continuationShape_two {n : Nat} (h : 0xC2 ≤ n) (h' : n < 0xE0) :
    continuationShape (UInt8.ofNat n) = some (1, 0x80, 0xBF) := by
  rw [continuationShape, toNat_ofNat_byte (by omega)]
  rw [if_neg (by omega), if_neg (by omega), if_pos h']

theorem continuationShape_three {n : Nat} (h : 0xE0 ≤ n) (h' : n < 0xF0) :
    continuationShape (UInt8.ofNat n) =
      some (2, if n = 0xE0 then 0xA0 else 0x80, if n = 0xED then 0x9F else 0xBF) := by
  rw [continuationShape, toNat_ofNat_byte (by omega)]
  rw [if_neg (by omega), if_neg (by omega), if_neg (by omega)]
  by_cases hfirst : n = 0xE0
  · simp [hfirst]
  · by_cases hpair : n = 0xED
    · simp [hpair]
    · simp [hfirst, hpair, h']

theorem continuationShape_four {n : Nat} (h : 0xF0 ≤ n) (h' : n ≤ 0xF4) :
    continuationShape (UInt8.ofNat n) =
      some (3, if n = 0xF0 then 0x90 else 0x80, if n = 0xF4 then 0x8F else 0xBF) := by
  rw [continuationShape, toNat_ofNat_byte (by omega)]
  rw [if_neg (by omega), if_neg (by omega), if_neg (by omega)]
  by_cases hfirst : n = 0xF0
  · simp [hfirst]
  · by_cases hlast : n = 0xF4
    · simp [hlast]
    · have hlt : n < 0xF4 := by omega
      simp [hfirst, hlast, hlt, show ¬ n = 0xE0 by omega, show ¬ n = 0xED by omega,
        show ¬ n < 0xF0 by omega]

end Char

theorem toNat_lt_or_gt (c : Char) : c.toNat < 0xD800 ∨ 0xDFFF < c.toNat ∧ c.toNat < 0x110000 :=
  c.valid

theorem decodeFrom_encodeChar (c : Char) (position : Nat) (rest : List UInt8) :
    decodeFrom position none (encodeChar c ++ rest) =
      (decodeFrom (position + (encodeChar c).length) none rest).map (c :: ·) := by
  have hvalid := toNat_lt_or_gt c
  have hchar : Char.ofNat c.toNat = c := Char.ofNat_toNat c
  rw [encodeChar]
  generalize c.toNat = n at hvalid hchar ⊢
  split
  next hone =>
    rw [List.singleton_append, decodeFrom, continuationShape_one hone,
      toNat_ofNat_byte (by omega), hchar]
    cases decodeFrom (position + 1) none rest with
    | ok cs => rfl
    | error fault => rfl
  next hone =>
    split
    next htwo =>
      have hshape := @continuationShape_two (0xC0 + n / 0x40) (by omega) (by omega)
      have hbyte : 0xC0 + n / 0x40 < 256 := by omega
      have hbits : startBits (UInt8.ofNat (0xC0 + n / 0x40)) 1 = n / 0x40 :=
        (congrArg (· - 0xC0) (toNat_ofNat_byte hbyte)).trans (Nat.add_sub_cancel_left ..)
      rw [List.cons_append, List.singleton_append, decodeFrom_start hshape, hbits,
        decodeFrom_last (by omega) (by simp) (by simp) (by dsimp only; omega),
        show n / 0x40 * 0x40 + n % 0x40 = n by omega, hchar]
      rfl
    next htwo =>
      split
      next hthree =>
        have hshape := @continuationShape_three (0xE0 + n / 0x1000) (by omega) (by omega)
        have hbyte : 0xE0 + n / 0x1000 < 256 := by omega
        have hbits : startBits (UInt8.ofNat (0xE0 + n / 0x1000)) 2 = n / 0x1000 :=
          (congrArg (· - 0xE0) (toNat_ofNat_byte hbyte)).trans (Nat.add_sub_cancel_left ..)
        rw [List.cons_append, List.cons_append, List.singleton_append, decodeFrom_start hshape,
          hbits,
          decodeFrom_more (by omega) (by simp) (by dsimp only; split <;> omega)
            (by dsimp only; split <;> omega),
          decodeFrom_last (by omega) (by simp) (by simp) (by dsimp only; omega),
          show (n / 0x1000 * 0x40 + n / 0x40 % 0x40) * 0x40 + n % 0x40 = n by omega, hchar]
        rfl
      next hthree =>
        have hshape := @continuationShape_four (0xF0 + n / 0x40000) (by omega) (by omega)
        have hbyte : 0xF0 + n / 0x40000 < 256 := by omega
        have hbits : startBits (UInt8.ofNat (0xF0 + n / 0x40000)) 3 = n / 0x40000 :=
          (congrArg (· - 0xF0) (toNat_ofNat_byte hbyte)).trans (Nat.add_sub_cancel_left ..)
        rw [List.cons_append, List.cons_append, List.cons_append, List.singleton_append,
          decodeFrom_start hshape, hbits,
          decodeFrom_more (by omega) (by simp) (by dsimp only; split <;> omega)
            (by dsimp only; split <;> omega),
          decodeFrom_more (by omega) (by simp) (by simp) (by dsimp only; omega),
          decodeFrom_last (by omega) (by simp) (by simp) (by dsimp only; omega),
          show ((n / 0x40000 * 0x40 + n / 0x1000 % 0x40) * 0x40 + n / 0x40 % 0x40) * 0x40
            + n % 0x40 = n by omega, hchar]
        rfl

/-!
## Texts
-/

theorem decodeFrom_encoded (cs : List Char) (position : Nat) :
    decodeFrom position none (cs.flatMap encodeChar) = .ok cs := by
  induction cs generalizing position with
  | nil => rfl
  | cons c cs ih =>
      rw [List.flatMap_cons, decodeFrom_encodeChar, ih]
      rfl

theorem decodeUtf8_encodeUtf8 (s : String) : decodeUtf8 (encodeUtf8 s) = .ok s := by
  rw [decodeUtf8, encodeUtf8, decodeFrom_encoded]
  exact congrArg Except.ok String.ofList_toList

theorem return_not_mem_normalizeLineEnds (cs : List Char) : '\r' ∉ normalizeLineEnds cs := by
  induction cs using normalizeLineEnds.induct with
  | case1 => exact List.not_mem_nil
  | case2 rest ih =>
      rw [normalizeLineEnds]
      simpa using ih
  | case3 rest hne ih =>
      rw [normalizeLineEnds.eq_3 _ hne]
      simpa using ih
  | case4 c rest hpair hreturn ih =>
      rw [normalizeLineEnds.eq_4 _ _ hpair hreturn, List.mem_cons, not_or]
      exact ⟨fun heq => hreturn heq.symm, ih⟩

theorem normalizeLineEnds_eq_self {cs : List Char} (h : '\r' ∉ cs) : normalizeLineEnds cs = cs := by
  induction cs with
  | nil => rfl
  | cons c cs ih =>
      rw [List.mem_cons, not_or] at h
      rw [normalizeLineEnds.eq_4 _ _ (fun _ heq => absurd heq.symm h.1) (fun heq => h.1 heq.symm),
        ih h.2]

end Text
end TextMate
