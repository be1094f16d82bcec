import Mathlib.Algebra.Order.Field.Power
import Mathlib.Data.Int.Log
import Mathlib.Data.Rat.Floor
import Mathlib.Tactic.FieldSimp
import Mathlib.Tactic.Linarith
import Mathlib.Tactic.Positivity
import TextMate.Decimal.Binary64

/-!
# Rounding to binary numbers

A number of the format has one mantissa and one exponent only: the mantissa has 53
bits unless the exponent is the least one.  Rounding depends on the value of a
fraction alone, not on how the fraction is written, and a fraction that is close
enough to a number of the format is rounded to that number.
-/

namespace TextMate
namespace Decimal
namespace Binary64

/-- The mantissa and the exponent are those of the format. -/
def IsCanonical : Binary64 → Prop
  | nan => True
  | infinite _ => True
  | finite _ m e =>
      m < 2 * hiddenBit ∧ minExponent ≤ e ∧ e ≤ maxExponent
        ∧ (hiddenBit ≤ m ∨ e = minExponent)

/-!
## Quotients
-/

/-- A quotient is rounded to a number that is less than one half away. -/
theorem roundQuotient_eq {num den m : Nat} (hlow : 2 * m * den < 2 * num + den)
    (hhigh : 2 * num < (2 * m + 1) * den) : roundQuotient num den = m := by
  have hdivision := Nat.div_add_mod num den
  have hmod : num % den < den := Nat.mod_lt _ (Nat.pos_of_ne_zero (by rintro rfl; omega))
  unfold roundQuotient
  generalize num / den = q at hdivision
  generalize num % den = r at hdivision hmod
  have hbelow : q ≤ m := by
    have h : (2 * q) * den < (2 * m + 1) * den := by nlinarith
    have := Nat.lt_of_mul_lt_mul_right h
    omega
  have habove : m ≤ q + 1 := by
    have h : (2 * m) * den < (2 * q + 3) * den := by nlinarith
    have := Nat.lt_of_mul_lt_mul_right h
    omega
  rcases Nat.eq_or_lt_of_le hbelow with rfl | hlt
  · have hsmall : 2 * r < den := by nlinarith
    simp [hsmall]
  · obtain rfl : m = q + 1 := by omega
    have hlarge : den < 2 * r := by nlinarith
    simp [hlarge, Nat.lt_asymm hlarge]

theorem roundQuotient_mul (num den : Nat) {c : Nat} (hc : 0 < c) :
    roundQuotient (num * c) (den * c) = roundQuotient num den := by
  have hmod : num * c % (den * c) = num % den * c := Nat.mul_mod_mul_right c num den
  have hlt : ∀ a b : Nat, 2 * (a * c) < b * c ↔ 2 * a < b := by
    intro a b
    rw [← Nat.mul_assoc]
    exact Nat.mul_lt_mul_right hc
  have hgt : ∀ a b : Nat, b * c < 2 * (a * c) ↔ b < 2 * a := by
    intro a b
    rw [← Nat.mul_assoc]
    exact Nat.mul_lt_mul_right hc
  simp only [roundQuotient, hmod, Nat.mul_div_mul_right _ _ hc, hlt, hgt]

theorem roundQuotient_congr {num den num' den' : Nat} (hden : 0 < den) (hden' : 0 < den')
    (h : num * den' = num' * den) : roundQuotient num den = roundQuotient num' den' := by
  rw [← roundQuotient_mul num den hden', h, Nat.mul_comm den, roundQuotient_mul num' den' hden]

theorem le_roundQuotient {num den m : Nat} (hden : 0 < den) (h : m * den ≤ num) :
    m ≤ roundQuotient num den := by
  have hq : m ≤ num / den := (Nat.le_div_iff_mul_le hden).mpr h
  unfold roundQuotient
  dsimp only
  split_ifs <;> omega

theorem roundQuotient_le {num den m : Nat} (hden : 0 < den) (h : num < m * den) :
    roundQuotient num den ≤ m := by
  have hq : num / den < m := (Nat.div_lt_iff_lt_mul hden).mpr h
  unfold roundQuotient
  dsimp only
  split_ifs <;> omega

/-!
## Scaling
-/

theorem scaleBinary_den_pos {den : Nat} (hden : 0 < den) (num : Nat) (e : Int) :
    0 < (scaleBinary num den e).2 := by
  unfold scaleBinary
  split
  · exact Nat.mul_pos hden (Nat.pow_pos (by decide))
  · exact hden

theorem scaleBinary_value (num den : Nat) (e : Int) :
    ((scaleBinary num den e).1 : ℚ) / (scaleBinary num den e).2 = num / den / 2 ^ e := by
  unfold scaleBinary
  split
  · rename_i he
    obtain ⟨k, rfl⟩ := Int.eq_ofNat_of_zero_le he
    simp [div_div]
  · rename_i he
    obtain ⟨k, rfl⟩ : ∃ k : Nat, e = -k := ⟨e.natAbs, by omega⟩
    simp [div_eq_mul_inv, mul_right_comm]

/-!
## Exponents
-/

theorem pow_log2_le {n : Nat} (hn : 0 < n) : (2 : ℚ) ^ (n.log2 : Int) ≤ n := by
  rw [zpow_natCast]
  exact_mod_cast Nat.log2_self_le (Nat.pos_iff_ne_zero.mp hn)

theorem lt_pow_log2 (n : Nat) : (n : ℚ) < 2 ^ ((n.log2 : Int) + 1) := by
  exact_mod_cast Nat.lt_log2_self

/-- The lengths of the parts of a fraction tell its order of magnitude up to one place. -/
theorem log_div {num den : Nat} (hnum : 0 < num) (hden : 0 < den) :
    (num.log2 : Int) - den.log2 - 1 ≤ Int.log 2 ((num : ℚ) / den)
      ∧ Int.log 2 ((num : ℚ) / den) ≤ (num.log2 : Int) - den.log2 := by
  have hnum' : (0 : ℚ) < num := by exact_mod_cast hnum
  have hden' : (0 : ℚ) < den := by exact_mod_cast hden
  have htwo : (0 : ℚ) < 2 := by norm_num
  constructor
  · rw [← Int.zpow_le_iff_le_log (by decide) (div_pos hnum' hden'), le_div_iff₀ hden']
    calc ((2 : Nat) : ℚ) ^ ((num.log2 : Int) - den.log2 - 1) * den
        ≤ 2 ^ ((num.log2 : Int) - den.log2 - 1) * 2 ^ ((den.log2 : Int) + 1) := by
          exact mul_le_mul_of_nonneg_left (lt_pow_log2 den).le (by positivity)
      _ = 2 ^ (num.log2 : Int) := by
          rw [← zpow_add₀ htwo.ne']
          congr 1
          omega
      _ ≤ num := pow_log2_le hnum
  · rw [← Int.lt_add_one_iff, ← Int.lt_zpow_iff_log_lt (by decide) (div_pos hnum' hden'),
      div_lt_iff₀ hden']
    calc (num : ℚ) < 2 ^ ((num.log2 : Int) + 1) := lt_pow_log2 num
      _ = 2 ^ ((num.log2 : Int) - den.log2 + 1) * 2 ^ (den.log2 : Int) := by
          rw [← zpow_add₀ htwo.ne']
          congr 1
          omega
      _ ≤ ((2 : Nat) : ℚ) ^ ((num.log2 : Int) - den.log2 + 1) * den := by
          exact mul_le_mul_of_nonneg_left (pow_log2_le hden) (by positivity)

theorem exponentOf_eq {num den : Nat} (hnum : 0 < num) (hden : 0 < den) :
    exponentOf num den = max minExponent (Int.log 2 ((num : ℚ) / den) - 52) := by
  rcases log_div hnum hden with ⟨hlow, hhigh⟩
  have hvalue : (0 : ℚ) < num / den := by positivity
  generalize hguess : (num.log2 : Int) - den.log2 - 52 = guess
  have hden' := scaleBinary_den_pos hden num guess
  have htest : (scaleBinary num den guess).1 < (scaleBinary num den guess).2 * hiddenBit ↔
      Int.log 2 ((num : ℚ) / den) < guess + 52 := by
    rw [← Int.lt_zpow_iff_log_lt (by decide) hvalue, Nat.mul_comm]
    rw [← Nat.cast_lt (α := ℚ), Nat.cast_mul, ← div_lt_iff₀ (by exact_mod_cast hden'),
      scaleBinary_value, div_lt_iff₀ (by positivity), Nat.cast_ofNat, zpow_add₀ (by norm_num),
      mul_comm]
    norm_num [hiddenBit]
  have hunfold : exponentOf num den = max minExponent
      (if (scaleBinary num den guess).1 < (scaleBinary num den guess).2 * hiddenBit
        then guess - 1 else guess) := by
    rw [← hguess]
    rfl
  rw [hunfold]
  congr 1
  split
  · rename_i h
    have := htest.mp h
    omega
  · rename_i h
    have := mt htest.mpr h
    omega

theorem add_le_log_iff {q : ℚ} (hq : 0 < q) (e k : Int) :
    e + k ≤ Int.log 2 q ↔ 2 ^ k ≤ q / 2 ^ e := by
  rw [← Int.zpow_le_iff_le_log (by decide) hq, le_div_iff₀ (by positivity), mul_comm,
    Nat.cast_ofNat, zpow_add₀ (by norm_num)]

/-!
## Fractions
-/

def place (negative : Bool) (m : Nat) (e : Int) : Binary64 :=
  if maxExponent < e then .infinite negative else .finite negative m e

def settle (negative : Bool) (m : Nat) (e : Int) : Binary64 :=
  if m = 2 * hiddenBit then place negative hiddenBit (e + 1) else place negative m e

theorem place_eq_finite (negative : Bool) (m : Nat) {e : Int} (he : e ≤ maxExponent) :
    place negative m e = .finite negative m e :=
  if_neg (Int.not_lt.mpr he)

theorem isCanonical_place (negative : Bool) {m : Nat} {e : Int} (hm : m < 2 * hiddenBit)
    (he : minExponent ≤ e) (hfull : hiddenBit ≤ m ∨ e = minExponent) :
    (place negative m e).IsCanonical := by
  unfold place
  split
  · trivial
  · exact ⟨hm, he, by omega, hfull⟩

theorem settle_of_lt (negative : Bool) {m : Nat} {e : Int} (hm : m < 2 * hiddenBit)
    (he : e ≤ maxExponent) : settle negative m e = .finite negative m e := by
  rw [settle, if_neg hm.ne, place_eq_finite negative m he]

theorem settle_carry (negative : Bool) {e : Int} (he : e + 1 ≤ maxExponent) :
    settle negative (2 * hiddenBit) e = .finite negative hiddenBit (e + 1) :=
  (if_pos rfl).trans (place_eq_finite negative hiddenBit he)

theorem isCanonical_settle (negative : Bool) {m : Nat} {e : Int} (hm : m ≤ 2 * hiddenBit)
    (he : minExponent ≤ e) (hfull : hiddenBit ≤ m ∨ e = minExponent) :
    (settle negative m e).IsCanonical := by
  unfold settle
  split
  · exact isCanonical_place negative (by decide) (by omega) (Or.inl (Nat.le_refl _))
  · rename_i hne
    exact isCanonical_place negative (Nat.lt_of_le_of_ne hm hne) he hfull

theorem settle_eq (negative : Bool) (m : Nat) (e : Int) :
    settle negative m e =
      let (m, e) := if m == 2 * hiddenBit then (hiddenBit, e + 1) else (m, e)
      if maxExponent < e then .infinite negative else .finite negative m e := by
  unfold settle place
  by_cases hm : m = 2 * hiddenBit
  · rw [if_pos hm, if_pos (beq_iff_eq.mpr hm)]
  · rw [if_neg hm, if_neg (mt beq_iff_eq.mp hm)]

theorem ofFraction_eq_settle (negative : Bool) {num den : Nat} {e : Int} {f : Nat × Nat}
    (hnum : 0 < num) (he : exponentOf num den = e) (hf : scaleBinary num den e = f) :
    ofFraction negative num den = settle negative (roundQuotient f.1 f.2) e := by
  have hne : ¬ (num == 0) = true := mt beq_iff_eq.mp hnum.ne'
  rw [settle_eq, ofFraction, if_neg hne]
  extract_lets exponent
  -- the pair is put in before it is taken apart, since taking it apart would compute it
  rw [show exponent = e from he, hf]

theorem ofFraction_zero (negative : Bool) (den : Nat) :
    ofFraction negative 0 den = .finite negative 0 minExponent :=
  if_pos (by decide)

theorem neg_settle (negative : Bool) (m : Nat) (e : Int) :
    (settle negative m e).neg = settle (!negative) m e := by
  have hplace : ∀ m e, (place negative m e).neg = place (!negative) m e := by
    intro m e
    unfold place
    split
    · rfl
    · rfl
  unfold settle
  split
  · exact hplace _ _
  · exact hplace _ _

theorem neg_ofFraction (negative : Bool) (num den : Nat) :
    (ofFraction negative num den).neg = ofFraction (!negative) num den := by
  rcases Nat.eq_zero_or_pos num with rfl | hnum
  · rw [ofFraction_zero, ofFraction_zero]
    rfl
  · rw [ofFraction_eq_settle negative hnum rfl rfl, neg_settle,
      ofFraction_eq_settle (!negative) hnum rfl rfl]

theorem ofFraction_congr (negative : Bool) {num den num' den' : Nat} (hden : 0 < den)
    (hden' : 0 < den') (h : num * den' = num' * den) :
    ofFraction negative num den = ofFraction negative num' den' := by
  rcases Nat.eq_zero_or_pos num with rfl | hnum
  · obtain rfl : num' = 0 := by
      rw [Nat.zero_mul, eq_comm, Nat.mul_eq_zero] at h
      exact h.resolve_right hden.ne'
    rw [ofFraction_zero, ofFraction_zero]
  have hnum' : 0 < num' := by
    refine Nat.pos_of_ne_zero ?_
    rintro rfl
    have := Nat.mul_pos hnum hden'
    omega
  have hvalue : (num : ℚ) / den = num' / den' := by
    rw [div_eq_div_iff (by exact_mod_cast hden.ne') (by exact_mod_cast hden'.ne')]
    exact_mod_cast h
  have hexponent : exponentOf num den = exponentOf num' den' := by
    rw [exponentOf_eq hnum hden, exponentOf_eq hnum' hden', hvalue]
  have hscaled := scaleBinary_value num den (exponentOf num' den')
  rw [hvalue, ← scaleBinary_value] at hscaled
  have hpos := scaleBinary_den_pos hden num (exponentOf num' den')
  have hpos' := scaleBinary_den_pos hden' num' (exponentOf num' den')
  rw [div_eq_div_iff (by exact_mod_cast hpos.ne') (by exact_mod_cast hpos'.ne')] at hscaled
  rw [ofFraction_eq_settle negative hnum hexponent rfl,
    ofFraction_eq_settle negative hnum' rfl rfl,
    roundQuotient_congr hpos hpos' (by exact_mod_cast hscaled)]

theorem isCanonical_zero (negative : Bool) : (finite negative 0 minExponent).IsCanonical :=
  ⟨by decide, le_rfl, by decide, Or.inr rfl⟩

theorem isCanonical_ofFraction (negative : Bool) (num : Nat) {den : Nat} (hden : 0 < den) :
    (ofFraction negative num den).IsCanonical := by
  rcases Nat.eq_zero_or_pos num with rfl | hnum
  · rw [ofFraction_zero]
    exact isCanonical_zero negative
  generalize he : exponentOf num den = e
  generalize hf : scaleBinary num den e = f
  rw [ofFraction_eq_settle negative hnum he hf]
  have hq : (0 : ℚ) < num / den := by positivity
  have hscaled := scaleBinary_value num den e
  have hpos := scaleBinary_den_pos hden num e
  rw [hf] at hscaled hpos
  rw [exponentOf_eq hnum hden] at he
  have hpos' : (0 : ℚ) < f.2 := by exact_mod_cast hpos
  apply isCanonical_settle
  · apply roundQuotient_le hpos
    have hlog : ¬ e + 53 ≤ Int.log 2 ((num : ℚ) / den) := by omega
    rw [add_le_log_iff hq, not_le, ← hscaled, div_lt_iff₀ hpos'] at hlog
    have hbit : ((2 * hiddenBit : Nat) : ℚ) = 2 ^ (53 : Int) := by norm_num [hiddenBit]
    rw [← hbit] at hlog
    exact_mod_cast hlog
  · omega
  · by_cases hleast : e = minExponent
    · exact Or.inr hleast
    · have hlog : e + 52 ≤ Int.log 2 ((num : ℚ) / den) := by omega
      rw [add_le_log_iff hq, ← hscaled, le_div_iff₀ hpos'] at hlog
      have hbit : ((hiddenBit : Nat) : ℚ) = 2 ^ (52 : Int) := by norm_num [hiddenBit]
      rw [← hbit] at hlog
      exact Or.inl (le_roundQuotient hpos (by exact_mod_cast hlog))

theorem roundQuotient_of_near {num den m : Nat} (hden : 0 < den)
    (h : |(num : ℚ) / den - m| < 1 / 2) : roundQuotient num den = m := by
  have hden' : (0 : ℚ) < den := by exact_mod_cast hden
  rw [abs_lt, lt_sub_iff_add_lt, sub_lt_iff_lt_add, lt_div_iff₀ hden', div_lt_iff₀ hden'] at h
  apply roundQuotient_eq
  · have hlow : (2 * m * den : ℚ) < 2 * num + den := by linarith [h.1]
    exact_mod_cast hlow
  · have hhigh : (2 * num : ℚ) < (2 * m + 1) * den := by linarith [h.2]
    exact_mod_cast hhigh

theorem roundQuotient_scaleBinary_of_near {num den m : Nat} {e : Int} (hden : 0 < den)
    (h : |(num : ℚ) / den / 2 ^ e - m| < 1 / 2) :
    roundQuotient (scaleBinary num den e).1 (scaleBinary num den e).2 = m := by
  apply roundQuotient_of_near (scaleBinary_den_pos hden num e)
  rwa [scaleBinary_value]

theorem cast_hiddenBit : ((hiddenBit : Nat) : ℚ) = 2 ^ 52 := by norm_num [hiddenBit]

/-! A number that differs from one of the format by less than one part in `2 ^ 54`. -/

section Near

variable {q : ℚ} {m : Nat} {e : Int} (hm : 0 < m)
  (hnear : |q / 2 ^ e - m| < m / 2 ^ 54)
include hm hnear

theorem pos_of_near : 0 < q := by
  have hm' : (0 : ℚ) < m := by exact_mod_cast hm
  have hclose := (abs_lt.mp hnear).1
  have hscaled : 0 < q / 2 ^ e := by linarith
  exact (div_pos_iff_of_pos_right (by positivity)).mp hscaled

omit hm in
theorem half_of_near (hless : m < 2 * hiddenBit) : |q / 2 ^ e - m| < 1 / 2 := by
  have hbound : (m : ℚ) < 2 ^ 53 := by
    have : (m : ℚ) < (2 * hiddenBit : Nat) := Nat.cast_lt.mpr hless
    push_cast [cast_hiddenBit] at this
    linarith
  linarith

theorem log_lt_of_near (hless : m < 2 * hiddenBit) : Int.log 2 q < e + 53 := by
  have hbound : (m : ℚ) + 1 ≤ 2 ^ 53 := by
    have : ((m + 1 : Nat) : ℚ) ≤ (2 * hiddenBit : Nat) := Nat.cast_le.mpr hless
    push_cast [cast_hiddenBit] at this
    linarith
  have hclose := (abs_lt.mp hnear).2
  rw [← not_le, add_le_log_iff (pos_of_near hm hnear), not_le]
  norm_num at hbound hclose ⊢
  linarith

theorem eq_hiddenBit_of_near (hfull : hiddenBit ≤ m) (hlow : Int.log 2 q < e + 52) :
    m = hiddenBit := by
  have hclose := (abs_lt.mp hnear).1
  rw [← not_le, add_le_log_iff (pos_of_near hm hnear), not_le] at hlow
  by_contra hne
  have hmore : hiddenBit + 1 ≤ m := by omega
  have hbound : ((hiddenBit + 1 : Nat) : ℚ) ≤ m := Nat.cast_le.mpr hmore
  push_cast [cast_hiddenBit] at hbound
  norm_num at hlow hclose
  linarith

end Near

theorem le_log_of_near {q : ℚ} {e : Int}
    (hnear : |q / 2 ^ e - hiddenBit| < hiddenBit / 2 ^ 54) : e + 51 ≤ Int.log 2 q := by
  rw [add_le_log_iff (pos_of_near (by decide) hnear)]
  have hclose := (abs_lt.mp hnear).1
  rw [cast_hiddenBit] at hclose
  norm_num at hclose ⊢
  linarith

theorem half_of_near_hiddenBit {q : ℚ} {e : Int}
    (hnear : |q / 2 ^ e - hiddenBit| < hiddenBit / 2 ^ 54) :
    |q / 2 ^ (e - 1) - (2 * hiddenBit : Nat)| < 1 / 2 := by
  have hscale : q / 2 ^ (e - 1) = 2 * (q / 2 ^ e) := by
    rw [zpow_sub_one₀ (by norm_num)]
    field_simp
  rw [abs_lt, cast_hiddenBit] at hnear
  rw [hscale, abs_lt]
  push_cast [cast_hiddenBit]
  constructor <;> linarith [hnear.1, hnear.2]

/-- A fraction that differs from a number of the format by less than one part in `2 ^ 54` is
rounded to that number. -/
theorem ofFraction_of_near {negative : Bool} {m : Nat} {e : Int}
    (h : (finite negative m e).IsCanonical) {num den : Nat} (hden : 0 < den) (hm : 0 < m)
    (hnear : |(num : ℚ) / den / 2 ^ e - m| < m / 2 ^ 54) :
    ofFraction negative num den = .finite negative m e := by
  rcases h with ⟨hless, hmin, hmax, hfull⟩
  have hnum : 0 < num := by
    refine Nat.pos_of_ne_zero ?_
    rintro rfl
    simpa using pos_of_near hm hnear
  have hhigh := log_lt_of_near hm hnear hless
  have hexponent := exponentOf_eq hnum hden
  by_cases hplace : e + 52 ≤ Int.log 2 ((num : ℚ) / den) ∨ e = minExponent
  · have he : exponentOf num den = e := by
      rw [hexponent]
      omega
    rw [ofFraction_eq_settle negative hnum he rfl,
      roundQuotient_scaleBinary_of_near hden (half_of_near hnear hless),
      settle_of_lt negative hless hmax]
  · -- below the least mantissa of 53 bits the fraction has one place more
    rw [not_or, not_le] at hplace
    have hleast : m = hiddenBit :=
      eq_hiddenBit_of_near hm hnear (hfull.resolve_right hplace.2) hplace.1
    rw [hleast] at hnear
    have he : exponentOf num den = e - 1 := by
      have hstill := le_log_of_near hnear
      rw [hexponent]
      omega
    rw [ofFraction_eq_settle negative hnum he rfl,
      roundQuotient_scaleBinary_of_near hden (half_of_near_hiddenBit hnear),
      settle_carry negative (by omega), hleast, Int.sub_add_cancel]

end Binary64
end Decimal
end TextMate
