/-!
# The digits of whole numbers

A natural number is written with decimal digits, and a negative number with a minus
in front of them.  A whole number can be told from its text.
-/

namespace TextMate
namespace Text

theorem toList_toString (n : Nat) : (toString n).toList = Nat.toDigits 10 n :=
  Nat.toList_repr

theorem isDigit_of_mem_toString {n : Nat} {c : Char} (h : c ∈ (toString n).toList) :
    c.isDigit = true := by
  rw [toList_toString] at h
  exact Nat.isDigit_of_mem_toDigits (by decide) (by decide) h

theorem ofDigitChars_toString (n : Nat) : Nat.ofDigitChars 10 (toString n).toList 0 = n := by
  rw [toList_toString]
  exact Nat.ofDigitChars_toDigits (by decide) (by decide)

theorem toString_toList_ne_nil (n : Nat) : (toString n).toList ≠ [] := by
  rw [toList_toString]
  exact Nat.toDigits_ne_nil

theorem toString_toList_inj {m n : Nat} (h : (toString m).toList = (toString n).toList) :
    m = n := by
  rw [← ofDigitChars_toString m, h, ofDigitChars_toString]

def IsIntChar (c : Char) : Prop :=
  c.isDigit = true ∨ c = '-'

theorem toList_toString_negSucc (n : Nat) :
    (toString (Int.negSucc n)).toList = '-' :: (toString (n + 1)).toList := by
  show ("-" ++ toString (n + 1)).toList = _
  simp

theorem isIntChar_of_mem_toString {n : Int} {c : Char} (h : c ∈ (toString n).toList) :
    IsIntChar c := by
  cases n with
  | ofNat n => exact Or.inl (isDigit_of_mem_toString h)
  | negSucc n =>
      rw [toList_toString_negSucc] at h
      rcases List.mem_cons.mp h with rfl | h
      · exact Or.inr rfl
      · exact Or.inl (isDigit_of_mem_toString h)

theorem toString_ne_minus {m : Nat} {cs : List Char} : (toString m).toList ≠ '-' :: cs := by
  intro h
  have hdigit : ('-' : Char).isDigit = true := by
    apply @isDigit_of_mem_toString m
    rw [h]
    exact List.mem_cons_self
  exact absurd hdigit (by decide)

theorem toString_int_inj {m n : Int} (h : toString m = toString n) : m = n := by
  have hlist := congrArg String.toList h
  cases m with
  | ofNat m =>
      cases n with
      | ofNat n => exact congrArg Int.ofNat (toString_toList_inj hlist)
      | negSucc n =>
          rw [toList_toString_negSucc] at hlist
          exact absurd hlist toString_ne_minus
  | negSucc m =>
      cases n with
      | ofNat n =>
          rw [toList_toString_negSucc] at hlist
          exact absurd hlist.symm toString_ne_minus
      | negSucc n =>
          rw [toList_toString_negSucc, toList_toString_negSucc, List.cons.injEq] at hlist
          have hsucc : m + 1 = n + 1 := toString_toList_inj hlist.2
          rw [Nat.succ.inj hsucc]

end Text
end TextMate
