import TextMate.Proofs.Yaml.Making
import TextMate.Yaml.Node.Value

/-!
# Keys of mappings in values that are read

Wherever a value that is read from a document has a mapping, the keys of the mapping
are scalars that the reader tells apart.
-/

namespace TextMate
namespace Value

/-- Values all of whose mappings have scalars as keys, which may differ. -/
inductive IsWellKeyed : Value → Prop where
  | scalar {v : Value} : v.IsScalar -> IsWellKeyed v
  | list {vs : List Value} : (∀ v ∈ vs, IsWellKeyed v) -> IsWellKeyed (.list vs)
  | tuple {vs : List Value} : (∀ v ∈ vs, IsWellKeyed v) -> IsWellKeyed (.tuple vs)
  | set {keys : List Value} : (∀ key ∈ keys, key.IsScalar) -> IsWellKeyed (.set keys)
  | dict {es : List (Value × Value)} :
      (∀ e ∈ es, e.1.IsScalar) -> es.Pairwise (fun d e => Yaml.MayDiffer d.1 e.1) ->
      (∀ e ∈ es, IsWellKeyed e.2) -> IsWellKeyed (.dict es)
  | anchored {n : Nat} {v : Value} : IsWellKeyed v -> IsWellKeyed (.anchored n v)
  | again (n : Nat) : IsWellKeyed (.again n)

theorem IsWellKeyed.of_anchored {n : Nat} {v : Value} (h : IsWellKeyed (.anchored n v)) :
    v.IsWellKeyed := by
  cases h with
  | scalar h => exact h.elim
  | anchored h => exact h

theorem IsWellKeyed.bare {v : Value} (h : v.IsWellKeyed) : v.bare.IsWellKeyed := by
  induction h with
  | scalar h =>
      rw [Value.bare]
      · exact .scalar h
      · intro n v heq
        subst heq
        exact h.elim
  | list h _ => exact .list h
  | tuple h _ => exact .tuple h
  | set h => exact .set h
  | dict hkeys hdiffer h _ => exact .dict hkeys hdiffer h
  | anchored _ ih => exact ih
  | again n => exact .again n

theorem IsWellKeyed.entries {es : List (Value × Value)} (h : IsWellKeyed (.dict es)) :
    (∀ e ∈ es, e.1.IsScalar) ∧ es.Pairwise (fun d e => Yaml.MayDiffer d.1 e.1)
      ∧ ∀ e ∈ es, e.2.IsWellKeyed := by
  cases h with
  | scalar h => exact h.elim
  | dict hkeys hdiffer h => exact ⟨hkeys, hdiffer, h⟩

end Value

namespace Yaml

open Value

/-!
## Values of objects
-/

namespace Unfolding

theorem pairwise_zip {α β : Type} {R : α → α → Prop} {as : List α} (h : as.Pairwise R)
    (bs : List β) : (as.zip bs).Pairwise fun d e => R d.1 e.1 := by
  induction h generalizing bs with
  | nil => exact List.Pairwise.nil
  | cons hfirst _ ih =>
      cases bs with
      | nil => exact List.Pairwise.nil
      | cons b bs => exact (ih bs).cons fun e he => hfirst _ (List.of_mem_zip he).1

theorem isWellKeyed_of_mem_pairUp : ∀ {vs : List Value}, (∀ v ∈ vs, v.IsWellKeyed) →
    ∀ v ∈ pairUp vs, v.IsWellKeyed
  | [], _, _, h => by cases h
  | [_], _, _, h => by cases h
  | key :: value :: rest, hall, v, h => by
      rcases List.mem_cons.mp h with rfl | h
      · refine .tuple fun w hw => hall w ?_
        simp only [List.mem_cons, List.not_mem_nil, or_false] at hw
        rcases hw with rfl | rfl <;> simp
      · exact isWellKeyed_of_mem_pairUp (fun w hw => hall w (by simp [hw])) v h

theorem isWellKeyed_parts {object : Object} (h : object.IsKeyed) {vs : List Value}
    (hvs : ∀ v ∈ vs, v.IsWellKeyed) : ((parts object).2 vs).IsWellKeyed := by
  cases object with
  | scalar value identity => exact .scalar h
  | list items => exact .list hvs
  | set keys => exact .set h
  | pairs entries => exact .list (isWellKeyed_of_mem_pairUp hvs)
  | dict entries =>
      rcases h with ⟨hscalar, hdiffer⟩
      refine .dict (fun e he => ?_) ?_ fun e he => hvs _ (List.of_mem_zip he).2
      · exact List.forall_mem_map.mpr hscalar e.1 (List.of_mem_zip he).1
      · exact pairwise_zip (List.pairwise_map.mpr hdiffer) vs

def RecallsKeyed (known : Array (Option Unfolding)) : Prop :=
  ∀ n u, known.getD n none = some u → u.value.IsWellKeyed

/-- Work that finds something of some kind, as long as what is remembered is keyed. -/
def Finds {α : Type} (good : α → Prop) (work : StateM (Array (Option Unfolding)) α) : Prop :=
  ∀ known, RecallsKeyed known → good (work.run known).1 ∧ RecallsKeyed (work.run known).2

section Finds

variable {α β : Type} {good : α → Prop} {after : β → Prop}

theorem finds_pure {a : α} (h : good a) : Finds good (pure a) :=
  fun _ hknown => ⟨h, hknown⟩

theorem Finds.bind {work : StateM (Array (Option Unfolding)) α}
    {next : α → StateM (Array (Option Unfolding)) β} (h : Finds good work)
    (hnext : ∀ a, good a → Finds after (next a)) : Finds after (work >>= next) :=
  fun known hknown => hnext _ (h known hknown).1 _ (h known hknown).2

theorem finds_get_bind {next : Array (Option Unfolding) → StateM (Array (Option Unfolding)) β}
    (hnext : ∀ known, RecallsKeyed known → Finds after (next known)) :
    Finds after (get >>= next) :=
  fun known hknown => hnext known hknown known hknown

theorem finds_mapM {work : α → StateM (Array (Option Unfolding)) β}
    (h : ∀ a, Finds after (work a)) (as : List α) :
    Finds (fun bs => ∀ b ∈ bs, after b) (as.mapM work) := by
  induction as with
  | nil => exact finds_pure nofun
  | cons a as ih =>
      rw [List.mapM_cons]
      refine (h a).bind fun b hb => ih.bind fun bs hbs => finds_pure ?_
      exact List.forall_mem_cons.mpr ⟨hb, hbs⟩

end Finds

theorem isWellKeyed_collect {n : Nat} {members : List Unfolding}
    {build : List Value → Value} (h : (build (members.map (·.value))).IsWellKeyed) :
    (collect n members build).value.IsWellKeyed := by
  unfold collect
  dsimp only
  split
  · exact .anchored h
  · exact h

theorem finds_remember {u : Unfolding} (hu : u.value.IsWellKeyed) (n : Nat) :
    Finds (fun u => u.value.IsWellKeyed) (do
      if u.free.isEmpty then
        modify fun known : Array (Option Unfolding) => known.setIfInBounds n (some u)
      return u) := by
  intro known hknown
  split
  · refine ⟨hu, fun k w hw => ?_⟩
    rcases of_getD_setIfInBounds hw with ⟨_, rfl⟩ | hw
    · exact hu
    · exact hknown k w hw
  · exact finds_pure hu known hknown

theorem finds_ofObject {objects : Objects}
    (h : ∀ n object, objects.getD n none = some object → object.IsKeyed) (fuel : Nat)
    (around : List Nat) (n : Nat) :
    Finds (fun u => u.value.IsWellKeyed) (ofObject objects fuel around n) := by
  induction fuel generalizing around n with
  | zero => exact finds_pure (.again n)
  | succ fuel ih =>
      have hobject : ((objects.getD n none).getD default).IsKeyed := by
        cases hfound : objects.getD n none with
        | none => trivial
        | some object => exact h n object hfound
      have hmembers := finds_mapM (ih (n :: around))
        (parts ((objects.getD n none).getD default)).1
      rw [ofObject]
      split
      · exact finds_pure (.again n)
      · refine finds_get_bind fun known hknown => ?_
        split
        next u hu => exact finds_pure (hknown n u hu)
        · refine hmembers.bind fun us hus => ?_
          have hvalue := isWellKeyed_parts hobject (List.forall_mem_map.mpr hus)
          exact finds_remember (isWellKeyed_collect hvalue) n

end Unfolding

/-- The keys of a value that is read are scalars that may differ. -/
theorem isWellKeyed_of_read {s : String} {v : Value} (h : read s = .ok v) : v.IsWellKeyed := by
  have hyields : Yields Value.IsWellKeyed (read s) := by
    refine (yields_any (Document.ofText? s)).bind fun found _ => ?_
    cases found with
    | none => exact .scalar trivial
    | some d =>
        have hallows : ObjectMaker.AllowsScalars (MergedFrom d.nodes) fun _ => True :=
          ⟨fun _ => trivial, fun _ _ _ _ _ => trivial, fun _ _ _ hnodes => hnodes.merge⟩
        refine (Document.concludes_objects hallows).bind fun objects hobjects => ?_
        refine (Unfolding.finds_ofObject hobjects _ _ _ _ fun n u hu => ?_).1
        rw [getD_replicate_none] at hu
        cases hu
  exact hyields.of_ok h

end Yaml
end TextMate
