import TextMate.Yaml.Error

/-!
# How work ends

Work on a document either fails with a fault or has a result.  What is known of
both is said together, so that it can be followed step by step.
-/

namespace TextMate
namespace Yaml

/-- A fault that concerns what has no form only for a certain cause. -/
def FormlessFor (cause : Fault → Prop) (fault : Fault) : Prop :=
  fault.isFormless = true → cause fault

theorem formlessFor_of_formed {cause : Fault → Prop} {fault : Fault}
    (h : fault.isFormless = false) : FormlessFor cause fault := by
  intro hformless
  rw [h] at hformless
  cases hformless

theorem formlessFor_flaw {cause : Fault → Prop} (flaw : Flaw) :
    FormlessFor cause (.flaw flaw) :=
  formlessFor_of_formed rfl

/-- Work that fails with a fault of some kind or has a result of some kind. -/
def Concludes {α : Type} (bad : Fault → Prop) (good : α → Prop) : Except Fault α → Prop
  | .error fault => bad fault
  | .ok a => good a

def AllowsFlaws (bad : Fault → Prop) : Prop :=
  ∀ flaw, bad (.flaw flaw)

section Concludes

variable {α β : Type} {bad : Fault → Prop} {good : α → Prop} {after : β → Prop}
  {x : Except Fault α} {f : α → Except Fault β}

theorem concludes_error {fault : Fault} (h : bad fault) :
    Concludes bad good (.error fault) :=
  h

theorem Concludes.mono {good' : α → Prop} (h : Concludes bad good x)
    (himp : ∀ a, good a → good' a) : Concludes bad good' x := by
  cases x with
  | error fault => exact h
  | ok a => exact himp a h

theorem Concludes.imp {bad' : Fault → Prop} (h : Concludes bad good x)
    (himp : ∀ fault, bad fault → bad' fault) : Concludes bad' good x := by
  cases x with
  | error fault => exact himp fault h
  | ok a => exact h

theorem Concludes.bind (h : Concludes bad good x)
    (hf : ∀ a, good a → Concludes bad after (f a)) : Concludes bad after (x >>= f) := by
  cases x with
  | error fault => exact h
  | ok a => exact hf a h

theorem concludes_ite {p : Prop} [Decidable p] {y : Except Fault α}
    (hx : p → Concludes bad good x) (hy : ¬ p → Concludes bad good y) :
    Concludes bad good (if p then x else y) := by
  split
  next hp => exact hx hp
  next hp => exact hy hp

theorem concludes_refuse {p : Prop} [Decidable p] {fault : Fault} {rest : Except Fault β}
    (hbad : bad fault) (h : ¬ p → Concludes bad after rest) :
    Concludes bad after (if p then (Except.error fault : Except Fault α) >>= f else rest) := by
  split
  · exact hbad
  next hp => exact h hp

theorem concludes_require {p : Prop} [Decidable p] {fault : Fault} {rest : Except Fault β}
    (hbad : bad fault) (h : p → Concludes bad after rest) :
    Concludes bad after (if p then rest else (Except.error fault : Except Fault α) >>= f) := by
  split
  next hp => exact h hp
  · exact hbad

theorem concludes_either {isFirst : Bool} {y : Except Fault α} (hx : Concludes bad good x)
    (hy : Concludes bad good y) (hf : ∀ a, good a → Concludes bad after (f a)) :
    Concludes bad after (if isFirst then x >>= f else y >>= f) := by
  cases isFirst with
  | true => exact hx.bind hf
  | false => exact hy.bind hf

theorem Concludes.of_error (h : Concludes bad good x) {fault : Fault} (hx : x = .error fault) :
    bad fault := by
  rw [hx] at h
  exact h

theorem Concludes.of_ok (h : Concludes bad good x) {a : α} (hx : x = .ok a) : good a := by
  rw [hx] at h
  exact h

/-!
## Lists
-/

theorem concludes_foldlM {step : β → α → Except Fault β} {xs : List α} {b : β}
    (hb : after b) (hstep : ∀ x ∈ xs, ∀ b, after b → Concludes bad after (step b x)) :
    Concludes bad after (xs.foldlM step b) := by
  induction xs generalizing b with
  | nil => exact hb
  | cons x xs ih =>
      rw [List.foldlM_cons]
      refine (hstep x List.mem_cons_self b hb).bind fun b' hb' => ?_
      exact ih hb' fun y hy => hstep y (List.mem_cons_of_mem x hy)

theorem concludes_mapM {xs : List α} (h : ∀ x ∈ xs, Concludes bad after (f x)) :
    Concludes bad (fun ys => ys.length = xs.length) (xs.mapM f) := by
  induction xs with
  | nil => rfl
  | cons x xs ih =>
      rw [List.mapM_cons]
      refine (h x List.mem_cons_self).bind fun y _ => ?_
      refine (ih fun x' hx' => h x' (List.mem_cons_of_mem x hx')).bind fun ys hys => ?_
      exact congrArg (· + 1) hys

end Concludes

end Yaml
end TextMate
