import TextMate.Proofs.Yaml.Keys

/-!
# Making objects of any document

Objects are made of scalars and of merged mappings.  Nothing else is done to the
nodes than merging, and nothing else than a flaw can be wrong but the text of a
scalar.  The keys of a mapping that is made are scalars which the reader tells
apart.
-/

namespace TextMate
namespace Yaml

/-- Nodes after some mappings have taken in the entries they ask for. -/
inductive MergedFrom (nodes : Nodes) : Nodes → Prop where
  | refl : MergedFrom nodes nodes
  | merge {nodes' nodes'' : Nodes} {n : Nat} (h : MergedFrom nodes nodes')
      (hmerge : nodes'.merge n = .ok nodes'') : MergedFrom nodes nodes''

section Merge

variable {bad : Fault → Prop}

theorem concludes_mergedEntries (hflaw : AllowsFlaws bad) (fuel : Nat) (nodes : Nodes) (n : Nat) :
    Concludes bad (fun _ => True) (nodes.mergedEntries fuel n) := by
  induction fuel generalizing nodes n with
  | zero => trivial
  | succ fuel ih =>
      rw [Nodes.mergedEntries]
      split
      · trivial
      next value nodes _ =>
        -- what is asked for next
        have hrest : ∀ v : List (Nat × Nat) × Nodes, True → Concludes bad (fun _ => True) (do
            let w ← v.2.mergedEntries fuel n
            return (v.1 ++ w.1, w.2)) :=
          fun v _ => (ih v.2 n).bind fun _ _ => trivial
        have hlend : ∀ (nodes : Nodes) (m : Nat), Concludes bad (fun _ => True) (do
            let w ← nodes.mergedEntries fuel m
            return (((w.2.prepend m w.1).node m).content.entries, w.2.prepend m w.1)) :=
          fun nodes m => (ih nodes m).bind fun _ _ => trivial
        dsimp only
        split
        · exact (hlend nodes value).bind hrest
        next items _ =>
          refine Concludes.bind (concludes_foldlM trivial fun item _ pieces _ => ?_) hrest
          split
          · exact (hlend pieces.2 item).bind fun _ _ => trivial
          · exact hflaw _
        · exact hflaw _

theorem concludes_merge (hflaw : AllowsFlaws bad) (nodes : Nodes) (n : Nat) :
    Concludes bad (fun _ => True) (nodes.merge n) := by
  rw [Nodes.merge]
  split
  · exact (concludes_mergedEntries hflaw _ nodes n).bind fun _ _ => trivial
  · trivial

end Merge

/-!
## Work on objects
-/

/-- Something is true of the nodes, and the objects that are known are keyed. -/
structure ObjectMaker.Keeps (inv : Nodes → Prop) (m : ObjectMaker) : Prop where
  nodes : inv m.nodes
  objects : ∀ n object, m.objects.getD n none = some object → object.IsKeyed

/-- Work that fails as it may, has a result of some kind, and keeps what is true. -/
def Works {α : Type} (inv : Nodes → Prop) (bad : Fault → Prop) (good : α → Prop)
    (work : Making α) : Prop :=
  ∀ m : ObjectMaker, m.Keeps inv → Concludes bad (fun v => good v.1 ∧ v.2.Keeps inv) (work.run m)

section Works

variable {α β : Type} {inv : Nodes → Prop} {bad : Fault → Prop} {good : α → Prop}
  {after : β → Prop}

theorem works_pure {a : α} (h : good a) : Works inv bad good (pure a) :=
  fun _ hm => ⟨h, hm⟩

theorem Works.bind {work : Making α} {next : α → Making β} (h : Works inv bad good work)
    (hnext : ∀ a, good a → Works inv bad after (next a)) : Works inv bad after (work >>= next) := by
  intro m hm
  rw [StateT.run_bind]
  exact (h m hm).bind fun v hv => hnext v.1 hv.1 v.2 hv.2

theorem works_get_bind {next : ObjectMaker → Making β}
    (hnext : ∀ m, m.Keeps inv → Works inv bad after (next m)) :
    Works inv bad after (get >>= next) :=
  fun m hm => hnext m hm m hm

theorem works_modify {change : ObjectMaker → ObjectMaker}
    (h : ∀ m, m.Keeps inv → (change m).Keeps inv) :
    Works inv bad (fun _ => True) (modify change) :=
  fun m hm => ⟨trivial, h m hm⟩

theorem works_set {m : ObjectMaker} (h : m.Keeps inv) : Works inv bad (fun _ => True) (set m) :=
  fun _ _ => ⟨trivial, h⟩

theorem works_lift_bind {x : Except Fault α} {next : α → Making β} (hx : Concludes bad good x)
    (hnext : ∀ a, good a → Works inv bad after (next a)) :
    Works inv bad after (liftM x >>= next) := by
  intro m hm
  cases x with
  | error fault => exact hx
  | ok a => exact hnext a hx m hm

theorem works_throw {fault : Fault} (h : bad fault) :
    Works inv bad good (throw fault : Making α) :=
  fun _ _ => h

theorem works_foldlM {step : β → α → Making β}
    (h : ∀ b, after b → ∀ x, Works inv bad after (step b x)) (xs : List α) {b : β}
    (hb : after b) : Works inv bad after (xs.foldlM step b) := by
  induction xs generalizing b with
  | nil => exact works_pure hb
  | cons x xs ih =>
      rw [List.foldlM_cons]
      exact (h b hb x).bind fun _ hb' => ih hb'

theorem works_mapM {f : α → Making β} (h : ∀ x, Works inv bad (fun _ => True) (f x))
    (xs : List α) : Works inv bad (fun _ => True) (xs.mapM f) := by
  induction xs with
  | nil => exact works_pure trivial
  | cons x xs ih =>
      rw [List.mapM_cons]
      exact (h x).bind fun y _ => ih.bind fun ys _ => works_pure trivial

theorem works_forIn {round : α → Making β} (h : ∀ x, Works inv bad after (round x))
    (xs : List α) :
    Works inv bad (fun _ => True) (forIn xs PUnit.unit fun x _ => do
      let _ ← round x
      pure (.yield PUnit.unit)) := by
  induction xs with
  | nil => exact works_pure trivial
  | cons x xs ih =>
      rw [List.forIn_cons, bind_assoc]
      refine (h x).bind fun _ _ => ?_
      rw [pure_bind]
      exact ih

end Works

/-!
## Objects
-/

namespace ObjectMaker

variable {inv : Nodes → Prop} {bad : Fault → Prop}

/-- What objects may fail with: flaws, and what is wrong with a scalar. -/
structure AllowsScalars (inv : Nodes → Prop) (bad : Fault → Prop) : Prop where
  flaws : AllowsFlaws bad
  scalar : ∀ nodes n fault, inv nodes → nodes.scalarValue n = .error fault → bad fault
  merge : ∀ nodes nodes' n, inv nodes → nodes.merge n = .ok nodes' → inv nodes'

section Objects

variable (h : AllowsScalars inv bad)

theorem works_put (n : Nat) {object : Object} (hobject : object.IsKeyed) :
    Works inv bad (fun _ => True) (put n object) := by
  refine works_modify fun m hm => ⟨hm.nodes, fun k found hfound => ?_⟩
  rcases of_getD_setIfInBounds hfound with ⟨_, rfl⟩ | hfound
  · exact hobject
  · exact hm.objects k found hfound

theorem works_nodeOf (n : Nat) : Works inv bad (fun _ => True) (nodeOf n) :=
  works_get_bind fun _ _ => works_pure trivial

include h

theorem works_object (n : Nat) : Works inv bad Object.IsKeyed (object n) := by
  rw [object]
  refine works_get_bind fun m hm => ?_
  split
  next found hfound => exact works_pure (hm.objects n found hfound)
  · split
    next found hempty =>
      have hkeyed := Object.isKeyed_empty? hempty
      refine (works_put _ hkeyed).bind fun _ _ => ?_
      refine Works.bind (works_modify fun _ hm => ⟨hm.nodes, hm.objects⟩) fun _ _ => ?_
      exact works_pure hkeyed
    · refine works_lift_bind (?_ : Concludes bad Object.IsKeyed _) fun found hfound => ?_
      · have hscalar := yields_scalarValue m.nodes n
        rw [scalarOf]
        cases hvalue : m.nodes.scalarValue n with
        | error fault => exact h.scalar _ _ _ hm.nodes hvalue
        | ok v => exact hscalar.of_ok hvalue
      · exact (works_put _ hfound).bind fun _ _ => works_pure hfound

theorem works_keyOf (start : Mark) (n : Nat) :
    Works inv bad (fun key => key.1.IsScalar) (keyOf start n) := by
  rw [keyOf]
  refine (works_object h n).bind fun object hobject => ?_
  split
  · exact works_pure hobject
  · exact (works_nodeOf n).bind fun node _ => works_throw (h.flaws _)

theorem works_entriesOf (n : Nat) :
    Works inv bad (fun entries => (Object.dict entries).IsKeyed) (entriesOf n) := by
  rw [entriesOf]
  refine (works_nodeOf n).bind fun node _ => ?_
  split
  · refine works_get_bind fun m hm => ?_
    have hmerge : Concludes bad (fun nodes => inv nodes) (m.nodes.merge n) := by
      have hconcludes := concludes_merge h.flaws m.nodes n
      cases hnodes : m.nodes.merge n with
      | error fault => exact hconcludes.of_error hnodes
      | ok nodes => exact h.merge _ _ _ hm.nodes hnodes
    refine works_lift_bind hmerge fun nodes hnodes => ?_
    refine Works.bind (works_modify fun _ hm => ⟨hnodes, hm.objects⟩) fun _ _ => ?_
    refine Works.bind (works_foldlM (fun members hmembers entry => ?_) _ areKeyed_nil)
      fun members hmembers => works_pure hmembers.isKeyed
    refine (works_keyOf h node.start entry.1).bind fun key hkey => ?_
    exact (works_object h entry.2).bind fun _ _ => works_pure (hmembers.setMember hkey _)
  · exact fun _ _ => h.flaws _

theorem works_pairsOf (context : Context) (n : Nat) :
    Works inv bad (fun _ => True) (pairsOf context n) := by
  rw [pairsOf]
  refine (works_nodeOf n).bind fun node _ => ?_
  dsimp only
  split
  · refine Works.bind (works_mapM (fun item => ?_) _) fun pairs _ => works_pure trivial
    refine (works_nodeOf item).bind fun itemNode _ => ?_
    split
    · refine (works_object h _).bind fun _ _ => ?_
      exact (works_object h _).bind fun _ _ => works_pure trivial
    · exact works_throw (h.flaws _)
    · exact works_throw (h.flaws _)
  · exact works_throw (h.flaws _)

theorem works_fill (n : Nat) : Works inv bad (fun _ => True) (fill n) := by
  rw [fill]
  refine (works_nodeOf n).bind fun node _ => ?_
  split
  · split
    · refine Works.bind (works_forIn (works_object h) _) fun _ _ => ?_
      exact works_put _ trivial
    · exact works_throw (h.flaws _)
  · exact (works_entriesOf h n).bind fun _ hentries => works_put _ hentries
  · refine (works_entriesOf h n).bind fun _ hentries => works_put _ ?_
    exact List.forall_mem_map.mpr hentries.1
  · exact (works_pairsOf h _ n).bind fun _ _ => works_put _ trivial
  · exact (works_pairsOf h _ n).bind fun _ _ => works_put _ trivial
  · exact works_pure trivial

theorem works_fillAll (fuel : Nat) : Works inv bad (fun _ => True) (fillAll fuel) := by
  induction fuel with
  | zero => exact works_pure trivial
  | succ fuel ih =>
      rw [fillAll]
      refine works_get_bind fun m hm => ?_
      split
      · exact works_pure trivial
      · refine Works.bind (works_set ⟨hm.nodes, hm.objects⟩) fun _ _ => ?_
        exact Works.bind (works_forIn (works_fill h) _) fun _ _ => ih

end Objects

end ObjectMaker

/-- The objects of a document fail at flaws and at scalars; those that are made are keyed. -/
theorem Document.concludes_objects {bad : Fault → Prop} {d : Document}
    (h : ObjectMaker.AllowsScalars (MergedFrom d.nodes) bad) :
    Concludes bad (fun objects => ∀ n object, objects.getD n none = some object → object.IsKeyed)
      d.objects := by
  have hmake : Works (MergedFrom d.nodes) bad (fun _ => True) (do
      let _ ← ObjectMaker.object d.root
      ObjectMaker.fillAll (d.nodes.size + 1)) :=
    (ObjectMaker.works_object h d.root).bind fun _ _ => ObjectMaker.works_fillAll h _
  have hnone : ObjectMaker.Keeps (MergedFrom d.nodes)
      ⟨d.nodes, Array.replicate d.nodes.size none, []⟩ := by
    refine ⟨.refl, fun n object hobject => ?_⟩
    rw [getD_replicate_none] at hobject
    cases hobject
  rw [Document.objects]
  exact (hmake _ hnone).bind fun _ hkept => hkept.2.objects

end Yaml
end TextMate
