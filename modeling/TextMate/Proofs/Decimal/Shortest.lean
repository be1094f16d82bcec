import Mathlib.Algebra.Order.Floor.Semifield
import TextMate.Decimal.Shortest
import TextMate.Proofs.Decimal.Rounding

/-!
# Shortest digits

The digits that are sought for a number are tried by reading them back, so it only
has to be seen that there are such digits: of seventeen significant digits the
nearest ones differ from the number by so little that they are rounded to it.
Zeros at the end do not count, because reading depends on the value of the digits
only.
-/

namespace TextMate
namespace Decimal
namespace Binary64

/-!
## Orders of magnitude
-/

theorem fraction_den_pos (m : Nat) (e : Int) : 0 < (fraction m e).2 := by
  unfold fraction
  split
  · exact Nat.one_pos
  · exact Nat.pow_pos (by decide)

theorem fraction_value (m : Nat) (e : Int) :
    ((fraction m e).1 : ℚ) / (fraction m e).2 = m * 2 ^ e := by
  unfold fraction
  split
  · rename_i he
    obtain ⟨k, rfl⟩ := Int.eq_ofNat_of_zero_le he
    simp
  · rename_i he
    obtain ⟨k, rfl⟩ : ∃ k : Nat, e = -k := ⟨e.natAbs, by omega⟩
    simp [div_eq_mul_inv]

theorem belowPowerOfTen_iff {num den : Nat} (hden : 0 < den) (k : Int) :
    belowPowerOfTen num den k = true ↔ (num : ℚ) / den < 10 ^ k := by
  have hden' : (0 : ℚ) < den := by exact_mod_cast hden
  unfold belowPowerOfTen
  split
  · rename_i hk
    obtain ⟨j, rfl⟩ := Int.eq_ofNat_of_zero_le hk
    rw [decide_eq_true_iff, div_lt_iff₀ hden', mul_comm]
    simp only [zpow_natCast, Int.toNat_natCast]
    exact_mod_cast Iff.rfl
  · rename_i hk
    obtain ⟨j, rfl⟩ : ∃ j : Nat, k = -j := ⟨k.natAbs, by omega⟩
    rw [decide_eq_true_iff, zpow_neg, zpow_natCast, div_lt_iff₀ hden', ← div_eq_inv_mul,
      lt_div_iff₀ (by positivity), neg_neg, Int.toNat_natCast]
    exact_mod_cast Iff.rfl

/-- The search for the order of magnitude ends at a power of ten that is not greater than the
value, or at the last candidate. -/
theorem decimalOrder_spec (num : Nat) {den : Nat} (hden : 0 < den) (fuel : Nat) (k : Int) :
    decimalOrder num den fuel k ≤ k ∧ k - fuel ≤ decimalOrder num den fuel k
      ∧ ((10 : ℚ) ^ (k - fuel) ≤ num / den →
          (10 : ℚ) ^ decimalOrder num den fuel k ≤ num / den) := by
  induction fuel generalizing k with
  | zero => simp [decimalOrder]
  | succ fuel ih =>
      rw [decimalOrder]
      split
      · rcases ih (k - 1) with ⟨hle, hge, hpower⟩
        refine ⟨by omega, by omega, fun h => hpower ?_⟩
        rwa [show k - 1 - (fuel : Int) = k - (fuel + 1 : Nat) by omega]
      · rename_i hnot
        refine ⟨le_rfl, by omega, fun _ => ?_⟩
        rw [belowPowerOfTen_iff hden, not_lt] at hnot
        exact hnot

theorem ten_zpow_le_of {n k : Nat} (hn : n ≠ 0) {t b : Int}
    (hbase : ((10 : ℚ) ^ n) ^ t ≤ (2 ^ k) ^ t) (h : k * t ≤ n * b) : (10 : ℚ) ^ t ≤ 2 ^ b := by
  rw [← pow_le_pow_iff_left₀ (by positivity) (by positivity) hn]
  calc ((10 : ℚ) ^ t) ^ n = (10 ^ n) ^ t := by
        rw [← zpow_natCast, ← zpow_natCast, ← zpow_mul, ← zpow_mul, mul_comm]
    _ ≤ (2 ^ k) ^ t := hbase
    _ = 2 ^ (k * t) := by rw [← zpow_natCast, ← zpow_mul]
    _ ≤ 2 ^ (n * b) := zpow_le_zpow_right₀ (by norm_num) h
    _ = (2 ^ b) ^ n := by rw [← zpow_natCast, ← zpow_mul, mul_comm]

/-- Exponents on the one side of two slopes, which lie around the logarithm of ten, have powers
on the same side. -/
theorem ten_zpow_le_two_zpow {t b : Int} (hup : 10 * t ≤ 3 * b) (hdown : 43 * t ≤ 13 * b) :
    (10 : ℚ) ^ t ≤ 2 ^ b := by
  rcases le_total 0 t with ht | ht
  · refine ten_zpow_le_of (n := 3) (k := 10) (by decide) ?_ (by exact_mod_cast hup)
    exact zpow_le_zpow_left₀ ht (by positivity) (by norm_num)
  · refine ten_zpow_le_of (n := 13) (k := 43) (by decide) ?_ (by exact_mod_cast hdown)
    obtain ⟨j, rfl⟩ : ∃ j : Nat, t = -j := ⟨t.natAbs, by omega⟩
    rw [zpow_neg, zpow_neg, zpow_natCast, zpow_natCast]
    exact inv_anti₀ (by positivity) (pow_le_pow_left₀ (by positivity) (by norm_num) j)

theorem orderOf_spec {num den : Nat} (hnum : 0 < num) (hden : 0 < den)
    (hlow : -1100 ≤ Int.log 2 ((num : ℚ) / den)) (hhigh : Int.log 2 ((num : ℚ) / den) ≤ 1100) :
    (10 : ℚ) ^ orderOf num den ≤ num / den ∧ -340 ≤ orderOf num den ∧ orderOf num den ≤ 340 := by
  rcases log_div hnum hden with ⟨hless, hmore⟩
  unfold orderOf
  generalize (num.log2 : Int) - den.log2 = b at hless hmore
  dsimp only
  rcases decimalOrder_spec num hden 8 (b * 30103 / 100000 + 2) with ⟨hle, hge, hpower⟩
  refine ⟨hpower ?_, by omega, by omega⟩
  calc (10 : ℚ) ^ (b * 30103 / 100000 + 2 - (8 : Nat))
      ≤ 2 ^ (b - 1) := ten_zpow_le_two_zpow (by omega) (by omega)
    _ ≤ 2 ^ Int.log 2 ((num : ℚ) / den) := zpow_le_zpow_right₀ (by norm_num) hless
    _ ≤ num / den := by
        have hq : (0 : ℚ) < num / den := by positivity
        exact_mod_cast Int.zpow_log_le_self (b := 2) (by decide) hq

theorem IsCanonical.log_bounds {negative : Bool} {m : Nat} {e : Int}
    (h : (finite negative m e).IsCanonical) (hm : 0 < m) :
    -1100 ≤ Int.log 2 ((m : ℚ) * 2 ^ e) ∧ Int.log 2 ((m : ℚ) * 2 ^ e) ≤ 1100 := by
  rcases h with ⟨hless, hmin, hmax, _⟩
  have hmin' : (-1074 : Int) ≤ e := hmin
  have hmax' : e ≤ (971 : Int) := hmax
  have hpow : (0 : ℚ) < 2 ^ e := by positivity
  have hvalue : (0 : ℚ) < m * 2 ^ e := by positivity
  have hscaled : (m : ℚ) * 2 ^ e / 2 ^ e = m := by field_simp
  constructor
  · have hlog : e + 0 ≤ Int.log 2 ((m : ℚ) * 2 ^ e) := by
      rw [add_le_log_iff hvalue, hscaled]
      exact_mod_cast hm
    omega
  · have hlog : ¬ e + 53 ≤ Int.log 2 ((m : ℚ) * 2 ^ e) := by
      rw [add_le_log_iff hvalue, hscaled, not_le]
      have : (m : ℚ) < (2 * hiddenBit : Nat) := Nat.cast_lt.mpr hless
      refine this.trans_le ?_
      norm_num [hiddenBit]
    omega

/-!
## Reading decimals
-/

/-- Digits and the place of their unit that are near enough to one for a number to be computed. -/
structure IsModest (digits : Nat) (unit : Int) : Prop where
  pos : 0 < digits
  low : -400 ≤ unit
  high : unit ≤ 400

theorem exists_ofDecimal_eq {digits : Nat} {unit : Int} (h : IsModest digits unit) :
    ∃ num den : Nat, 0 < den ∧ (num : ℚ) / den = digits * 10 ^ unit
      ∧ ∀ negative, ofDecimal negative digits unit = ofFraction negative num den := by
  have hzero : ¬ (digits == 0) = true := mt beq_iff_eq.mp h.pos.ne'
  have hlarge : ¬ 400 < unit := Int.not_lt.mpr h.high
  have hsmall : ¬ unit + (digits.log2 : Int) + 1 < -400 := by
    have := h.low
    omega
  unfold ofDecimal
  simp only [if_neg hzero, if_neg hlarge, if_neg hsmall]
  split
  · rename_i hunit
    obtain ⟨k, rfl⟩ := Int.eq_ofNat_of_zero_le hunit
    exact ⟨_, 1, Nat.one_pos, by simp, fun _ => rfl⟩
  · rename_i hunit
    obtain ⟨k, rfl⟩ : ∃ k : Nat, unit = -k := ⟨unit.natAbs, by omega⟩
    exact ⟨digits, _, Nat.pow_pos (by decide), by simp [div_eq_mul_inv], fun _ => rfl⟩

theorem ofDecimal_congr {digits digits' : Nat} {unit unit' : Int} (h : IsModest digits unit)
    (h' : IsModest digits' unit') (hvalue : (digits : ℚ) * 10 ^ unit = digits' * 10 ^ unit')
    (negative : Bool) : ofDecimal negative digits unit = ofDecimal negative digits' unit' := by
  rcases exists_ofDecimal_eq h with ⟨num, den, hden, hq, hread⟩
  rcases exists_ofDecimal_eq h' with ⟨num', den', hden', hq', hread'⟩
  rw [hread, hread']
  apply ofFraction_congr negative hden hden'
  rw [← hq, ← hq', div_eq_div_iff (by exact_mod_cast hden.ne') (by exact_mod_cast hden'.ne')]
    at hvalue
  exact_mod_cast hvalue

theorem neg_ofDecimal (negative : Bool) (digits : Nat) (unit : Int) :
    (ofDecimal negative digits unit).neg = ofDecimal (!negative) digits unit := by
  unfold ofDecimal
  split_ifs
  · rfl
  · rfl
  · rfl
  · exact neg_ofFraction negative _ _
  · exact neg_ofFraction negative _ _

theorem ofDecimal_of_positive {digits : Nat} {unit : Int} {m : Nat} {e : Int}
    (h : ofDecimal false digits unit = .finite false m e) (negative : Bool) :
    ofDecimal negative digits unit = .finite negative m e := by
  cases negative with
  | false => exact h
  | true =>
      have hneg := neg_ofDecimal false digits unit
      rw [h] at hneg
      exact hneg.symm

/-!
## Seventeen digits
-/

theorem decimalFloor_eq_floor (num den : Nat) (unit : Int) :
    (decimalFloor num den unit).1 = ⌊(num : ℚ) / den / 10 ^ unit⌋₊ := by
  unfold decimalFloor
  by_cases hunit : 0 ≤ unit
  · simp only [if_pos hunit]
    obtain ⟨k, rfl⟩ := Int.eq_ofNat_of_zero_le hunit
    rw [zpow_natCast, div_div, ← Nat.floor_div_eq_div (K := ℚ)]
    simp
  · simp only [if_neg hunit]
    obtain ⟨k, rfl⟩ : ∃ k : Nat, unit = -k := ⟨unit.natAbs, by omega⟩
    rw [zpow_neg, zpow_natCast, div_inv_eq_mul, div_mul_eq_mul_div,
      ← Nat.floor_div_eq_div (K := ℚ)]
    simp

theorem exists_near_floor {y : ℚ} (hy : 0 ≤ y) :
    ∃ digits : Nat, (digits = ⌊y⌋₊ ∨ digits = ⌊y⌋₊ + 1) ∧ |y - digits| ≤ 1 / 2 := by
  have hlow := Nat.floor_le hy
  have hhigh := Nat.lt_floor_add_one y
  by_cases hside : y - ⌊y⌋₊ ≤ 1 / 2
  · refine ⟨⌊y⌋₊, Or.inl rfl, abs_le.mpr ⟨?_, hside⟩⟩
    linarith
  · refine ⟨⌊y⌋₊ + 1, Or.inr rfl, abs_le.mpr ⟨?_, ?_⟩⟩
    · push_cast
      linarith
    · push_cast
      linarith

theorem digitsOfLength_isSome {m : Nat} {e : Int} {length num den digits : Nat} {unit : Int}
    (hf : fraction m e = (num, den)) (hunit : orderOf num den - length + 1 = unit)
    (hdigits : digits = (decimalFloor num den unit).1
      ∨ digits = (decimalFloor num den unit).1 + 1)
    (hread : ofDecimal false digits unit = .finite false m e) :
    (digitsOfLength m e length).isSome = true := by
  rcases hfloor : decimalFloor num den unit with ⟨low, side⟩
  rw [hfloor] at hdigits
  have htried : (ofDecimal false digits unit == .finite false m e) = true := by
    rw [hread]
    exact beq_self_eq_true _
  rw [digitsOfLength, hf]
  dsimp only
  rw [hunit, hfloor]
  rw [Option.isSome_map, List.find?_isSome]
  refine ⟨digits, ?_, htried⟩
  cases side with
  | lt => simpa using hdigits
  | gt => simpa using hdigits.symm
  | eq =>
      dsimp only
      split
      · simpa using hdigits
      · simpa using hdigits.symm

theorem of_digitsOfLength {m : Nat} {e : Int} {length digits : Nat} {unit : Int}
    (h : digitsOfLength m e length = some (digits, unit)) :
    unit = orderOf (fraction m e).1 (fraction m e).2 - length + 1
      ∧ ofDecimal false digits unit = .finite false m e := by
  rcases hf : fraction m e with ⟨num, den⟩
  rw [digitsOfLength, hf] at h
  dsimp only at h
  rcases Option.map_eq_some_iff.mp h with ⟨found, hfound, heq⟩
  cases heq
  have hread := List.find?_some hfound
  exact ⟨rfl, beq_iff_eq.mp hread⟩

theorem orderOf_fraction {m : Nat} {e : Int} (h : (finite false m e).IsCanonical) (hm : 0 < m) :
    (10 : ℚ) ^ orderOf (fraction m e).1 (fraction m e).2 ≤ m * 2 ^ e
      ∧ -340 ≤ orderOf (fraction m e).1 (fraction m e).2
      ∧ orderOf (fraction m e).1 (fraction m e).2 ≤ 340 := by
  have hvalue := fraction_value m e
  have hden := fraction_den_pos m e
  have hpositive : (0 : ℚ) < m * 2 ^ e := by positivity
  generalize fraction m e = f at hvalue hden
  have hnum : 0 < f.1 := by
    refine Nat.pos_of_ne_zero fun hzero => ?_
    rw [hzero, Nat.cast_zero, zero_div] at hvalue
    exact hpositive.ne hvalue
  rcases h.log_bounds hm with ⟨hlow, hhigh⟩
  rw [← hvalue] at hlow hhigh ⊢
  exact orderOf_spec hnum hden hlow hhigh

theorem digitsOfLength_seventeen {m : Nat} {e : Int} (h : (finite false m e).IsCanonical)
    (hm : 0 < m) : (digitsOfLength m e 17).isSome = true := by
  have hvalue := fraction_value m e
  have hden := fraction_den_pos m e
  rcases orderOf_fraction h hm with ⟨horder, hleast, hmost⟩
  rcases hf : fraction m e with ⟨num, den⟩
  rw [hf] at hvalue hden horder hleast hmost
  dsimp only at hvalue hden horder hleast hmost
  have hm' : (0 : ℚ) < m := by exact_mod_cast hm
  have hpow : (0 : ℚ) < 2 ^ e := by positivity
  generalize hunit : orderOf num den - (17 : Nat) + 1 = unit
  have hstep : (10 : ℚ) ^ unit * 10 ^ 16 ≤ m * 2 ^ e := by
    refine le_trans (le_of_eq ?_) horder
    rw [← hunit, ← zpow_natCast, ← zpow_add₀ (by norm_num)]
    congr 1
    push_cast
    ring
  have hten : (0 : ℚ) < 10 ^ unit := by positivity
  rcases exists_near_floor (y := (num : ℚ) / den / 10 ^ unit) (by positivity) with
    ⟨digits, hdigits, hnear⟩
  rw [← decimalFloor_eq_floor] at hdigits
  rw [hvalue] at hnear
  have hmany : (10 : ℚ) ^ 16 ≤ m * 2 ^ e / 10 ^ unit := by
    rw [le_div_iff₀ hten, mul_comm]
    exact hstep
  have hmodest : IsModest digits unit := by
    refine ⟨Nat.pos_of_ne_zero ?_, by omega, by omega⟩
    rintro rfl
    have := (abs_le.mp hnear).2
    norm_num at this hmany
    linarith
  rcases exists_ofDecimal_eq hmodest with ⟨num', den', hden', hvalue', hread⟩
  refine digitsOfLength_isSome hf hunit hdigits ((hread false).trans ?_)
  apply ofFraction_of_near h hden' hm
  -- half a unit of the last digit is less than one part in `2 ^ 54` of the number
  have hratio : (10 : ℚ) ^ unit / 2 ^ e * 10 ^ 16 ≤ m := by
    rw [div_mul_eq_mul_div, div_le_iff₀ hpow]
    exact hstep
  have hdistance : (num' : ℚ) / den' / 2 ^ e - m =
      -((m * 2 ^ e / 10 ^ unit - digits) * (10 ^ unit / 2 ^ e)) := by
    rw [hvalue']
    field_simp
    ring
  have hratio' : (0 : ℚ) < 10 ^ unit / 2 ^ e := by positivity
  rw [hdistance, abs_neg, abs_mul, abs_of_pos hratio']
  calc |(m : ℚ) * 2 ^ e / 10 ^ unit - digits| * (10 ^ unit / 2 ^ e)
      ≤ 1 / 2 * (10 ^ unit / 2 ^ e) := mul_le_mul_of_nonneg_right hnear hratio'.le
    _ ≤ 1 / 2 * (m / 10 ^ 16) := by
        rw [← le_div_iff₀ (by positivity)] at hratio
        linarith
    _ < m / 2 ^ 54 := by
        norm_num
        linarith

/-!
## The digits of a number
-/

theorem dropZeros_spec (fuel digits : Nat) (unit : Int) :
    ((dropZeros fuel digits unit).1 : ℚ) * 10 ^ (dropZeros fuel digits unit).2 =
        digits * 10 ^ unit
      ∧ unit ≤ (dropZeros fuel digits unit).2
      ∧ (dropZeros fuel digits unit).2 ≤ unit + fuel := by
  induction fuel generalizing digits unit with
  | zero => simp [dropZeros]
  | succ fuel ih =>
      rw [dropZeros]
      split
      · rename_i hzero
        rcases ih (digits / 10) (unit + 1) with ⟨hvalue, hlow, hhigh⟩
        refine ⟨?_, by omega, by push_cast; omega⟩
        have hdigits : digits = digits / 10 * 10 := by
          rw [beq_iff_eq] at hzero
          omega
        rw [hvalue, zpow_add_one₀ (by norm_num)]
        conv_rhs => rw [hdigits]
        push_cast
        ring
      · exact ⟨rfl, le_rfl, by omega⟩

/-- The digits that are written for a number read back as the number, with either sign. -/
theorem shortestDigits_spec {m : Nat} {e : Int} (h : (finite false m e).IsCanonical)
    (hm : 0 < m) :
    IsModest (shortestDigits m e).1 (shortestDigits m e).2
      ∧ (shortestDigits m e).2 ≤ 360
      ∧ ∀ negative, ofDecimal negative (shortestDigits m e).1 (shortestDigits m e).2 =
          .finite negative m e := by
  have hsome : ((List.range 17).findSome? fun n => digitsOfLength m e (n + 1)).isSome = true := by
    rw [List.findSome?_isSome_iff]
    exact ⟨16, List.mem_range.mpr (by decide), digitsOfLength_seventeen h hm⟩
  rcases Option.isSome_iff_exists.mp hsome with ⟨⟨digits, unit⟩, hfound⟩
  have hdropped : shortestDigits m e = dropZeros 20 digits unit := by
    unfold shortestDigits
    split
    · rename_i hsame
      rw [hfound] at hsame
      cases hsame
      rfl
    · rename_i hnone
      rw [hfound] at hnone
      cases hnone
  rcases List.exists_of_findSome?_eq_some hfound with ⟨n, hn, hlength⟩
  rw [List.mem_range] at hn
  rcases of_digitsOfLength hlength with ⟨hunit, hread⟩
  rcases orderOf_fraction h hm with ⟨_, hleast, hmost⟩
  have hpos : 0 < digits := by
    refine Nat.pos_of_ne_zero ?_
    rintro rfl
    have hzero : ofDecimal false 0 unit = .finite false 0 minExponent := if_pos (by decide)
    rw [hzero] at hread
    cases hread
    exact absurd hm (Nat.lt_irrefl 0)
  have hmodest : IsModest digits unit := ⟨hpos, by omega, by omega⟩
  rw [hdropped]
  rcases dropZeros_spec 20 digits unit with ⟨hvalue, hlow, hhigh⟩
  have hkept : IsModest (dropZeros 20 digits unit).1 (dropZeros 20 digits unit).2 := by
    refine ⟨Nat.pos_of_ne_zero fun hzero => ?_, by omega, by omega⟩
    rw [hzero, Nat.cast_zero, zero_mul] at hvalue
    have : (0 : ℚ) < digits * 10 ^ unit := by positivity
    exact this.ne hvalue
  refine ⟨hkept, by omega, fun negative => ?_⟩
  rw [ofDecimal_congr hkept hmodest hvalue]
  exact ofDecimal_of_positive hread negative

end Binary64
end Decimal
end TextMate
