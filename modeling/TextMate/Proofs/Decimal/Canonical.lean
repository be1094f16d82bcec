import TextMate.Decimal.Numeral
import TextMate.Proofs.Decimal.Shortest

/-!
# Numbers of the format

Rounding yields numbers of the format, so every number that is read or computed is
one.
-/

namespace TextMate
namespace Decimal
namespace Binary64

theorem isCanonical_ofDecimal (negative : Bool) (digits : Nat) (exponent : Int) :
    (ofDecimal negative digits exponent).IsCanonical := by
  unfold ofDecimal
  split
  · exact isCanonical_zero negative
  · split
    · trivial
    · split
      · exact isCanonical_zero negative
      · split
        · exact isCanonical_ofFraction negative _ Nat.one_pos
        · exact isCanonical_ofFraction negative _ (Nat.pow_pos (by decide))

theorem isCanonical_ofInt (n : Int) : (ofInt n).IsCanonical :=
  isCanonical_ofFraction _ _ Nat.one_pos

theorem IsCanonical.neg {x : Binary64} (h : x.IsCanonical) : x.neg.IsCanonical := by
  cases x with
  | nan => trivial
  | infinite negative => trivial
  | finite negative m e => exact h

theorem isCanonical_add (x y : Binary64) : (x.add y).IsCanonical := by
  cases x with
  | nan => trivial
  | infinite a =>
      cases y with
      | nan => trivial
      | infinite b =>
          rw [Binary64.add]
          split <;> trivial
      | finite b n f => trivial
  | finite a m e =>
      cases y with
      | nan => trivial
      | infinite b => trivial
      | finite b n f =>
          exact isCanonical_ofFraction _ _
            (Nat.mul_pos (fraction_den_pos m e) (fraction_den_pos n f))

theorem isCanonical_readMagnitude {negative : Bool} {cs : List Char} {x : Binary64}
    (h : readMagnitude negative cs = some x) : x.IsCanonical := by
  -- with or without a point, the digits are rounded
  have hdigits : ∀ (isEmpty : Bool) (digits places : Nat) (rest : List Char),
      (if isEmpty then none
        else (readPower rest).map fun power => ofDecimal negative digits (power - (places : Int))) =
          some x → x.IsCanonical := by
    intro isEmpty digits places rest h
    split at h
    · cases h
    · rcases Option.map_eq_some_iff.mp h with ⟨power, _, rfl⟩
      exact isCanonical_ofDecimal _ _ _
  unfold readMagnitude at h
  dsimp only at h
  split at h
  · exact hdigits _ _ _ _ h
  · exact hdigits _ _ _ _ h

theorem isCanonical_readFloat {cs : List Char} {x : Binary64} (h : readFloat cs = some x) :
    x.IsCanonical := by
  unfold readFloat at h
  dsimp only at h
  split at h
  · cases h
    trivial
  · split at h
    · cases h
      trivial
    · exact isCanonical_readMagnitude h

end Binary64
end Decimal
end TextMate
