import TextMate.Proofs.Decimal.ReadText
import TextMate.Proofs.Schema.DocumentGrammar
import TextMate.Proofs.Yaml.Keys
import TextMate.Schema.Check

/-!
# Keys of groups

The keys of captures become texts.  Of keys that are no texts this loses nothing:
the plain forms of nothing, truth values, whole numbers and numbers with a point
are all different, and different ones of one type are written differently.  Only
a key that is a text already can coincide with another one.
-/

namespace TextMate

open Decimal

namespace Value

open Text

theorem exists_not_isIntChar_text (x : Binary64) : ∃ c ∈ x.text.toList, ¬ IsIntChar c := by
  cases x with
  | nan => exact ⟨'n', by decide, by simp [IsIntChar]⟩
  | infinite negative =>
      refine ⟨'i', ?_, by simp [IsIntChar]⟩
      cases negative <;> decide
  | finite negative m e =>
      rw [Binary64.toList_text_finite]
      rcases (Binary64.isMagnitude_magnitudeText m e).mark with h | h
      · exact ⟨'.', List.mem_append_right _ h, by simp [IsIntChar]⟩
      · exact ⟨'e', List.mem_append_right _ h, by simp [IsIntChar]⟩

theorem toString_int_ne {n : Int} {s : String} (h : ∃ c ∈ s.toList, ¬ IsIntChar c) :
    toString n ≠ s := by
  rintro rfl
  rcases h with ⟨c, hc, hno⟩
  exact hno (isIntChar_of_mem_toString hc)

def wordForms : List String := ["None", "True", "False"]

theorem toString_int_ne_word {n : Int} {s : String} (h : s ∈ wordForms) : toString n ≠ s := by
  have hletters : ∀ s ∈ wordForms, ∃ c ∈ s.toList, c.isDigit = false ∧ c ≠ '-' := by
    simp [wordForms]
  rcases hletters s h with ⟨c, hc, hdigit, hminus⟩
  refine toString_int_ne ⟨c, hc, ?_⟩
  rintro (hyes | rfl)
  · rw [hdigit] at hyes
    cases hyes
  · exact hminus rfl

theorem text_ne_word {x : Binary64} (hx : x.IsCanonical) {s : String} (h : s ∈ wordForms) :
    x.text ≠ s := by
  have hwords : ∀ s ∈ wordForms, readFloat s.toList = none := by decide
  rintro rfl
  have hnone := hwords _ h
  rw [Binary64.readFloat_text hx] at hnone
  cases hnone

theorem plainForm_bool_mem (b : Bool) : (bool b).plainForm ∈ wordForms := by
  cases b <;> decide

theorem plainForm_inj {k l : Value} (hk : k.IsGroupKey) (hl : l.IsGroupKey) (hk' : ¬ k.IsText)
    (hl' : ¬ l.IsText) (h : k.plainForm = l.plainForm) : k = l := by
  have hnull : null.plainForm ∈ wordForms := by decide
  cases k with
  | null =>
      cases l with
      | null => rfl
      | bool b => cases b <;> exact absurd h (by decide)
      | int n => exact absurd h.symm (toString_int_ne_word hnull)
      | float y => exact absurd h.symm (text_ne_word hl hnull)
      | text s => exact absurd trivial hl'
      | broken codes => exact absurd trivial hl'
      | _ => exact hl.elim
  | bool b =>
      cases l with
      | null => cases b <;> exact absurd h (by decide)
      | bool c => cases b <;> cases c <;> first | rfl | exact absurd h (by decide)
      | int n => exact absurd h.symm (toString_int_ne_word (plainForm_bool_mem b))
      | float y => exact absurd h.symm (text_ne_word hl (plainForm_bool_mem b))
      | text s => exact absurd trivial hl'
      | broken codes => exact absurd trivial hl'
      | _ => exact hl.elim
  | int n =>
      cases l with
      | null => exact absurd h (toString_int_ne_word hnull)
      | bool b => exact absurd h (toString_int_ne_word (plainForm_bool_mem b))
      | int m => exact congrArg int (toString_int_inj h)
      | float y => exact absurd h (toString_int_ne (exists_not_isIntChar_text y))
      | text s => exact absurd trivial hl'
      | broken codes => exact absurd trivial hl'
      | _ => exact hl.elim
  | float x =>
      cases l with
      | null => exact absurd h (text_ne_word hk hnull)
      | bool b => exact absurd h (text_ne_word hk (plainForm_bool_mem b))
      | int m => exact absurd h.symm (toString_int_ne (exists_not_isIntChar_text x))
      | float y => exact congrArg float (Binary64.text_inj hk hl h)
      | text s => exact absurd trivial hl'
      | broken codes => exact absurd trivial hl'
      | _ => exact hl.elim
  | text s => exact absurd trivial hk'
  | broken codes => exact absurd trivial hk'
  | _ => exact hk.elim

theorem IsGroupKey.same_self {k : Value} (h : k.IsGroupKey) : k.same k = true := by
  cases k with
  | null => simp [same]
  | bool b => simp [same, number?, sameNumber]
  | int n => simp [same, number?, sameNumber]
  | float x => simp [same, number?, sameNumber]
  | text s => rw [same, beq_self_eq_true]
  | broken codes => rw [same, beq_self_eq_true]
  | _ => exact h.elim

end Value
end TextMate
