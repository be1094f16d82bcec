import TextMate.Proofs.Decimal.Canonical
import TextMate.Proofs.Yaml.Faults
import TextMate.Yaml.Object

/-!
# Keys of mappings

The keys of a mapping are scalars.  A key is set anew where it is met again, so no
two keys of a mapping are the same to the reader.  It takes two undefined numbers
for different keys unless both are spelled as the word for it.
-/

namespace TextMate

/-!
## Tables
-/

section Tables

variable {α : Type}

theorem getD_replicate_none (size k : Nat) :
    (Array.replicate size (none : Option α)).getD k none = none := by
  rw [Array.getD_eq_getD_getElem?, Array.getElem?_replicate]
  split <;> rfl

theorem of_getD_setIfInBounds {table : Array (Option α)} {n k : Nat} {a b : α}
    (h : (table.setIfInBounds n (some a)).getD k none = some b) :
    k = n ∧ b = a ∨ table.getD k none = some b := by
  rw [Array.getD_eq_getD_getElem?, Array.getElem?_setIfInBounds] at h
  split at h
  next heq =>
    split at h
    · cases h
      exact Or.inl ⟨heq.symm, rfl⟩
    · cases h
  next => exact Or.inr (by rwa [Array.getD_eq_getD_getElem?])

end Tables

open Decimal

/-!
## Scalars
-/

namespace Value

/-- Nothing, truth values, numbers and texts: the scalars by which groups are named. -/
def IsGroupKey : Value → Prop
  | null | bool _ | int _ | text _ | broken _ => True
  | float x => x.IsCanonical
  | _ => False

def IsScalar : Value → Prop
  | bytes _ | date _ | moment _ => True
  | v => v.IsGroupKey

theorem IsGroupKey.isScalar {v : Value} (h : v.IsGroupKey) : v.IsScalar := by
  cases v <;> first | exact h | trivial

theorem sameNumber_comm (a b : Int ⊕ Binary64) : sameNumber a b = sameNumber b a := by
  have hsame : ∀ x y : Binary64, x.same y = y.same x := by
    intro x y
    cases x <;> cases y <;> grind [Binary64.same]
  rcases a with a | x <;> rcases b with b | y
  · exact Bool.beq_comm
  · rfl
  · rfl
  · rw [sameNumber, sameNumber, hsame, Bool.beq_comm (a := x)]

theorem same_comm {v w : Value} (hv : v.IsScalar) (hw : w.IsScalar) : v.same w = w.same v := by
  have hmoment : ∀ m n : Moment, m.same n = n.same m := by
    intro m n
    rw [Moment.same, Moment.same, Bool.beq_comm, Bool.beq_comm (a := m.clock)]
  cases v <;> first | exact hv.elim | skip
  all_goals cases w <;> first | exact hw.elim | skip
  all_goals simp only [same, number?]
  all_goals first | rfl | exact sameNumber_comm _ _ | exact Bool.beq_comm | exact hmoment _ _

end Value

namespace Yaml

open Text

/-- Work that has a result of some kind if it has any. -/
abbrev Yields {α : Type} (good : α → Prop) (x : Except Fault α) : Prop :=
  Concludes (fun _ => True) good x

theorem yields_floatIn (codes : Codes) : Yields Binary64.IsCanonical (floatIn codes) := by
  unfold floatIn
  split
  · rename_i hread
    exact Binary64.isCanonical_readFloat hread
  · trivial

theorem yields_sumOfSixtieths (parts : List Binary64) (factor : Int) {sum : Binary64}
    (h : sum.IsCanonical) : Yields Binary64.IsCanonical (sumOfSixtieths sum factor parts) := by
  induction parts generalizing sum factor with
  | nil => exact h
  | cons part parts ih =>
      rw [sumOfSixtieths]
      split
      · exact ih _ (Binary64.isCanonical_add _ _)
      · trivial

theorem yields_floatOfCodes (codes : Codes) : Yields Binary64.IsCanonical (floatOfCodes codes) := by
  unfold floatOfCodes
  cases floatBody codes with
  | error fault => trivial
  | ok parts =>
      rcases parts with ⟨negative, body⟩
      -- the sign is added to whatever number stands behind it
      have hsign : ∀ x : Binary64, x.IsCanonical →
          Yields Binary64.IsCanonical (pure (if negative then x.neg else x)) := by
        intro x hx
        show (if negative then x.neg else x).IsCanonical
        split
        · exact hx.neg
        · exact hx
      refine concludes_ite (fun _ => trivial) fun _ => ?_
      refine concludes_ite (fun _ => hsign _ trivial) fun _ => ?_
      split
      · exact (yields_floatIn body).bind hsign
      · cases (sixtiethParts body).mapM floatIn with
        | error fault => trivial
        | ok xs =>
            exact (yields_sumOfSixtieths _ _ (Binary64.isCanonical_ofInt 0)).bind hsign

theorem isGroupKey_ofCodes (codes : Codes) : (Value.ofCodes codes).IsGroupKey := by
  unfold Value.ofCodes
  split <;> trivial

theorem yields_any {α : Type} (x : Except Fault α) : Yields (fun _ => True) x := by
  cases x <;> trivial

theorem yields_map {α β : Type} {good : α → Prop} {after : β → Prop} {f : α → β}
    {x : Except Fault α} (h : Yields good x) (hf : ∀ a, good a → after (f a)) :
    Yields after (f <$> x) := by
  cases x with
  | error fault => trivial
  | ok a => exact hf a h

theorem yields_bytesOfCodes (mark : Mark) (codes : Codes) :
    Yields Value.IsScalar (bytesOfCodes mark codes) := by
  unfold bytesOfCodes
  dsimp only
  split
  · trivial
  · cases decodeBase64 codes.chars with
    | error fault => cases fault <;> trivial
    | ok bytes => trivial

theorem yields_timestampOfCodes (codes : Codes) :
    Yields Value.IsScalar (timestampOfCodes codes) := by
  unfold timestampOfCodes
  have hmap : ∀ {α : Type} (x : Except CalendarFault α) {make : α → Value},
      (∀ a, (make a).IsScalar) → Yields Value.IsScalar ((x.map make).mapError .calendar) := by
    intro α x make hmake
    cases x with
    | error fault => trivial
    | ok a => exact hmake a
  dsimp only
  split
  · trivial
  · split
    · exact hmap _ fun _ => trivial
    · exact hmap _ fun _ => trivial

theorem yields_scalarValue (nodes : Nodes) (n : Nat) :
    Yields (fun r => r.1.IsScalar) (nodes.scalarValue n) := by
  have hread : ∀ {value : Codes → Except Fault Value},
      (∀ codes, Yields Value.IsScalar (value codes)) →
        Yields (fun r : Value × Codes => r.1.IsScalar) (do
          let codes ← nodes.scalarCodes (nodes.size + 1) n
          return (← value codes, codes)) := by
    intro value hvalue
    cases nodes.scalarCodes (nodes.size + 1) n with
    | error fault => trivial
    | ok codes => exact (hvalue codes).bind fun _ hv => hv
  rw [Nodes.scalarValue]
  dsimp only
  cases (nodes.node n).tag with
  | null => exact hread fun _ => trivial
  | text => exact hread fun codes => (isGroupKey_ofCodes codes).isScalar
  | bool => exact hread fun codes => yields_map (yields_any _) fun _ _ => trivial
  | int => exact hread fun codes => yields_map (yields_any _) fun _ _ => trivial
  | float => exact hread fun codes => yields_map (yields_floatOfCodes codes) fun _ hx => hx
  | binary => exact hread (yields_bytesOfCodes _)
  | timestamp =>
      refine hread fun codes => ?_
      split
      · exact yields_timestampOfCodes codes
      · trivial
  | _ => trivial

/-!
## Keys that differ
-/

/-- Whether the reader may tell two keys apart. -/
def MayDiffer (k l : Value) : Prop :=
  ∃ i j, ObjectMaker.sameKey (k, i) (l, j) = false

theorem mayDiffer_iff {k l : Value} :
    MayDiffer k l ↔ k.same l = false ∨ k = .float .nan ∧ l = .float .nan := by
  by_cases hnan : k = .float .nan ∧ l = .float .nan
  · rcases hnan with ⟨rfl, rfl⟩
    exact iff_of_true ⟨none, some 0, rfl⟩ (Or.inr ⟨rfl, rfl⟩)
  · have hsame : ∀ i j, ObjectMaker.sameKey (k, i) (l, j) = k.same l := by
      intro i j
      unfold ObjectMaker.sameKey
      split
      next hk hl => exact absurd ⟨hk, hl⟩ hnan
      next => rfl
    simp only [MayDiffer, hsame, exists_const, hnan, or_false]

/-- Whether what an object holds besides members is made of scalars, and keys differ. -/
def Object.IsKeyed : Object → Prop
  | .scalar value _ => value.IsScalar
  | .dict entries =>
      (∀ e ∈ entries, e.1.IsScalar) ∧ entries.Pairwise fun d e => MayDiffer d.1 e.1
  | .set keys => ∀ key ∈ keys, key.IsScalar
  | .list _ | .pairs _ => True

theorem Object.isKeyed_empty? {tag : Tag} {object : Object} (h : Object.empty? tag = some object) :
    object.IsKeyed := by
  cases tag <;> cases h <;> simp [Object.IsKeyed]

namespace ObjectMaker

theorem sameKey_comm {k l : Key} (hk : k.1.IsScalar) (hl : l.1.IsScalar) :
    sameKey k l = sameKey l k := by
  unfold sameKey
  split
  next hk' hl' =>
    simp only [hk', hl']
    exact Bool.beq_comm
  next hno =>
    split
    next hl' hk' => exact absurd hl' (hno hk')
    next => exact Value.same_comm hk hl

structure AreKeyed (members : List (Key × Nat)) : Prop where
  scalar : ∀ e ∈ members, e.1.1.IsScalar
  differ : members.Pairwise fun d e => sameKey d.1 e.1 = false

theorem areKeyed_nil : AreKeyed [] :=
  ⟨nofun, List.Pairwise.nil⟩

theorem AreKeyed.setMember {members : List (Key × Nat)} (h : AreKeyed members) {key : Key}
    (hkey : key.1.IsScalar) (n : Nat) : AreKeyed (setMember members key n) := by
  unfold ObjectMaker.setMember
  split
  · -- the keys stay as they are
    have hkeys : ∀ e : Key × Nat, (if sameKey key e.1 then (e.1, n) else e).1 = e.1 := by
      intro e
      split <;> rfl
    refine ⟨List.forall_mem_map.mpr fun e he => ?_, List.pairwise_map.mpr ?_⟩
    · rw [hkeys]
      exact h.scalar e he
    · simp only [hkeys]
      exact h.differ
  next hnew =>
    rw [Bool.not_eq_true, List.any_eq_false] at hnew
    refine ⟨fun e he => ?_, ?_⟩
    · rcases List.mem_append.mp he with he | he
      · exact h.scalar e he
      · rw [List.mem_singleton.mp he]
        exact hkey
    · refine List.pairwise_append.mpr ⟨h.differ, List.pairwise_singleton _ _, fun d hd e he => ?_⟩
      rw [List.mem_singleton.mp he, sameKey_comm (h.scalar d hd) hkey]
      simpa using hnew d hd

theorem AreKeyed.isKeyed {members : List (Key × Nat)} (h : AreKeyed members) :
    (Object.dict (members.map fun e => (e.1.1, e.2))).IsKeyed := by
  refine ⟨List.forall_mem_map.mpr h.scalar, List.pairwise_map.mpr ?_⟩
  exact h.differ.imp fun hsame => ⟨_, _, hsame⟩

end ObjectMaker

end Yaml
end TextMate
