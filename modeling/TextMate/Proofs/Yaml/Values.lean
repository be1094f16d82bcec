import Mathlib.Data.List.Forall2
import TextMate.Proofs.Yaml.Keys
import TextMate.Proofs.Yaml.Objects
import TextMate.Yaml.Node.Value

/-!
# Values of documents of texts

A member has a greater number than its collection, so no collection is met again
inside itself and the objects of a document unfold to its value.  What has been
unfolded once is remembered, and what is remembered does not depend on where it
was unfolded.
-/

namespace TextMate

open Schema

namespace Tree

mutual

/-- The document with only the last of the members that have one name, in the place of the
first. -/
def merged : Tree → Tree
  | list items => list (mergedItems items)
  | object members => object (Site.namedOf (mergedMembers members))
  | t => t

def mergedItems : List Tree → List Tree
  | [] => []
  | item :: items => merged item :: mergedItems items

def mergedMembers : List (String × Tree) → List (String × Tree)
  | [] => []
  | (name, t) :: members => (name, merged t) :: mergedMembers members

end

theorem mergedItems_eq_map (items : List Tree) : mergedItems items = items.map merged := by
  induction items with
  | nil => rfl
  | cons item items ih => rw [mergedItems, ih, List.map_cons]

theorem mergedMembers_eq_map (members : List (String × Tree)) :
    mergedMembers members = members.map fun m => (m.1, m.2.merged) := by
  induction members with
  | nil => rfl
  | cons m members ih => rw [mergedMembers, ih, List.map_cons]

@[simp] theorem merged_text (s : String) : (text s).merged = text s := rfl

@[simp] theorem merged_list (items : List Tree) :
    (list items).merged = list (items.map merged) := by
  rw [merged, mergedItems_eq_map]

@[simp] theorem merged_object (members : List (String × Tree)) :
    (object members).merged =
      object ((Site.namedOf members).map fun m => (m.1, m.2.merged)) := by
  rw [merged, mergedMembers_eq_map, Site.namedOf_map]

end Tree

namespace Yaml

open Text

/-!
## Members by name
-/

section Named

variable {nodes : Nodes} {n : Nat}

theorem forall₂_named {R : Nat → Tree → Prop} {es : List (Nat × Nat)}
    {members : List (String × Tree)}
    (h : List.Forall₂ (fun e m => IsTextNode nodes e.1 m.1 ∧ R e.2 m.2) es members) :
    List.Forall₂ (fun e m => e.1 = m.1 ∧ R e.2 m.2) (nodes.named es)
      (Site.namedOf members) := by
  refine Site.forall₂_namedOf (List.forall₂_map_left_iff.mpr (h.imp ?_))
  rintro e m ⟨hname, hmember⟩
  exact ⟨hname.nameOf, hmember⟩

end Named

theorem forall₂_items {nodes : Nodes} {n : Nat} : ∀ {items : List Tree} {ns : List Nat},
    RepresentsItems nodes n ns items →
      List.Forall₂ (fun k t => n < k ∧ Represents nodes k t) ns items
  | [], ns, h => by
      rw [RepresentsItems] at h
      rw [h]
      exact .nil
  | item :: items, ns, h => by
      rw [RepresentsItems] at h
      rcases h with ⟨m, ns', rfl, hm, hitem, hitems⟩
      exact .cons ⟨hm, hitem⟩ (forall₂_items hitems)

theorem forall₂_members {nodes : Nodes} {n : Nat} :
    ∀ {members : List (String × Tree)} {es : List (Nat × Nat)},
      RepresentsMembers nodes n es members →
        List.Forall₂ (fun e m => IsTextNode nodes e.1 m.1 ∧ n < e.2 ∧ Represents nodes e.2 m.2)
          es members
  | [], es, h => by
      rw [RepresentsMembers] at h
      rw [h]
      exact .nil
  | (name, t) :: members, es, h => by
      rw [RepresentsMembers] at h
      rcases h with ⟨k, m, es', rfl, _, hm, hname, ht, hmembers⟩
      exact .cons ⟨hname, hm, ht⟩ (forall₂_members hmembers)

mutual

theorem Represents.unique {nodes : Nodes} : ∀ {t t' : Tree} {n : Nat},
    Represents nodes n t → Represents nodes n t' → t = t'
  | .text s, t', n, h, h' => by
      rw [Represents] at h
      cases t' with
      | text s' =>
          rw [Represents] at h'
          rw [← h.nameOf, ← h'.nameOf]
      | _ =>
          rcases h with ⟨start, h⟩
          simp [Represents, h] at h'
  | .list items, t', n, h, h' => by
      rw [Represents] at h
      rcases h with ⟨ns, start, h, hitems⟩
      cases t' with
      | list items' =>
          rw [Represents] at h'
          rcases h' with ⟨ns', start', h', hitems'⟩
          rw [h] at h'
          cases h'
          rw [hitems.unique hitems']
      | _ => simp [Represents, IsTextNode, h] at h'
  | .object members, t', n, h, h' => by
      rw [Represents] at h
      rcases h with ⟨es, start, h, hmembers⟩
      cases t' with
      | object members' =>
          rw [Represents] at h'
          rcases h' with ⟨es', start', h', hmembers'⟩
          rw [h] at h'
          cases h'
          rw [hmembers.unique hmembers']
      | _ => simp [Represents, IsTextNode, h] at h'
  | .null, _, _, h, _ => by simp only [Represents] at h
  | .bool _, _, _, h, _ => by simp only [Represents] at h
  | .int _, _, _, h, _ => by simp only [Represents] at h
  | .float _, _, _, h, _ => by simp only [Represents] at h

theorem RepresentsItems.unique {nodes : Nodes} : ∀ {items items' : List Tree} {n : Nat}
    {ns : List Nat}, RepresentsItems nodes n ns items → RepresentsItems nodes n ns items' →
      items = items'
  | [], [], _, _, _, _ => rfl
  | [], _ :: _, _, _, h, h' => by
      rw [RepresentsItems] at h
      rw [RepresentsItems] at h'
      rcases h' with ⟨m, ns', rfl, _⟩
      cases h
  | _ :: _, [], _, _, h, h' => by
      rw [RepresentsItems] at h
      rw [RepresentsItems] at h'
      rcases h with ⟨m, ns', rfl, _⟩
      cases h'
  | item :: items, item' :: items', _, _, h, h' => by
      rw [RepresentsItems] at h
      rw [RepresentsItems] at h'
      rcases h with ⟨m, ns, rfl, _, hitem, hitems⟩
      rcases h' with ⟨m', ns', heq, _, hitem', hitems'⟩
      cases heq
      rw [hitem.unique hitem', hitems.unique hitems']

theorem RepresentsMembers.unique {nodes : Nodes} : ∀ {members members' : List (String × Tree)}
    {n : Nat} {es : List (Nat × Nat)}, RepresentsMembers nodes n es members →
      RepresentsMembers nodes n es members' → members = members'
  | [], [], _, _, _, _ => rfl
  | [], _ :: _, _, _, h, h' => by
      rw [RepresentsMembers] at h
      rw [RepresentsMembers] at h'
      rcases h' with ⟨k, m, es', rfl, _⟩
      cases h
  | _ :: _, [], _, _, h, h' => by
      rw [RepresentsMembers] at h
      rw [RepresentsMembers] at h'
      rcases h with ⟨k, m, es', rfl, _⟩
      cases h'
  | (name, t) :: members, (name', t') :: members', _, _, h, h' => by
      rw [RepresentsMembers] at h
      rw [RepresentsMembers] at h'
      rcases h with ⟨k, m, es, rfl, _, _, hname, ht, hmembers⟩
      rcases h' with ⟨k', m', es', heq, _, _, hname', ht', hmembers'⟩
      cases heq
      rw [← hname.nameOf, ← hname'.nameOf, ht.unique ht', hmembers.unique hmembers']

end

namespace Unfolding

def closed (v : Value) : Unfolding :=
  ⟨v, [], false⟩

theorem collect_closed (n : Nat) (vs : List Value) (build : List Value → Value) :
    collect n (vs.map closed) build = closed (build vs) := by
  have hvalues : (vs.map closed).map (·.value) = vs := by
    rw [List.map_map]
    exact List.map_id' vs
  have hfree : (vs.map closed).flatMap (·.free) = [] := by
    rw [List.flatMap_map, List.flatMap_eq_nil_iff]
    exact fun _ _ => rfl
  have hrecurs : (vs.map closed).any (·.recurs) = false := by
    rw [List.any_map, List.any_eq_false]
    exact fun _ _ h => nomatch h
  rw [collect, hvalues, hfree, hrecurs]
  rfl

/-- What is remembered of the nodes of a document is their value. -/
def Recalls (nodes : Nodes) (known : Array (Option Unfolding)) : Prop :=
  ∀ n u, known.getD n none = some u → ∀ t, Represents nodes n t → u = closed t.merged.value

/-- The work unfolds something to a value and goes on remembering values. -/
def UnfoldsTo (nodes : Nodes) (work : StateM (Array (Option Unfolding)) Unfolding)
    (v : Value) : Prop :=
  ∀ known, Recalls nodes known →
    ∃ known', work.run known = (closed v, known') ∧ Recalls nodes known'

theorem recalls_replicate (nodes : Nodes) (size : Nat) :
    Recalls nodes (Array.replicate size none) := by
  intro n u hu
  rw [getD_replicate_none] at hu
  cases hu

theorem Recalls.remember {nodes : Nodes} {known : Array (Option Unfolding)} {n : Nat}
    {u : Unfolding} (h : Recalls nodes known)
    (hu : ∀ t, Represents nodes n t → u = closed t.merged.value) :
    Recalls nodes (known.setIfInBounds n (some u)) := by
  intro k u' hu' t ht
  rcases of_getD_setIfInBounds hu' with ⟨rfl, rfl⟩ | hu'
  · exact hu t ht
  · exact h k u' hu' t ht

theorem run_mapM {α : Type} {nodes : Nodes}
    {unfold : Nat → StateM (Array (Option Unfolding)) Unfolding} {value : α → Value}
    {ns : List Nat} {ts : List α}
    (h : List.Forall₂ (fun n t => UnfoldsTo nodes (unfold n) (value t)) ns ts)
    {known : Array (Option Unfolding)} (hknown : Recalls nodes known) :
    ∃ known', (ns.mapM unfold).run known = ((ts.map value).map closed, known')
      ∧ Recalls nodes known' := by
  induction h generalizing known with
  | nil => exact ⟨known, rfl, hknown⟩
  | cons hn _ ih =>
      rcases hn known hknown with ⟨known₁, hrun, hknown₁⟩
      rcases ih hknown₁ with ⟨known₂, hrun', hknown₂⟩
      refine ⟨known₂, ?_, hknown₂⟩
      rw [List.mapM_cons, StateT.run_bind, hrun]
      show ((_ : StateM _ _).run known₁) = _
      rw [StateT.run_bind, hrun']
      rfl

section Objects

variable {nodes : Nodes} {m : ObjectMaker}

theorem exists_parts {n : Nat} {o : Object} {t : Tree} (hmade : IsMade nodes m n o)
    (h : Represents nodes n t) :
    ∃ ts, List.Forall₂ (fun k u => n < k ∧ Represents nodes k u ∧ m.known k ≠ none) (parts o).1 ts
      ∧ (parts o).2 (ts.map fun u => u.merged.value) = t.merged.value := by
  cases t with
  | text s =>
      rw [Represents] at h
      rw [IsMade, h.node.2] at hmade
      rcases hmade with ⟨identity, rfl⟩
      refine ⟨[], .nil, ?_⟩
      show Value.ofCodes _ = _
      rw [Value.ofCodes_ofChars, String.ofList_toList]
      rfl
  | list items =>
      rw [Represents] at h
      rcases h with ⟨ns, start, hnode, hitems⟩
      rw [IsMade, node_of_getElem? hnode] at hmade
      rcases hmade with ⟨rfl, hknown⟩
      refine ⟨items, ?_, ?_⟩
      · have hmembers := (List.forall₂_and_left _ _).mpr ⟨hknown, forall₂_items hitems⟩
        exact hmembers.imp fun k u hk => ⟨hk.2.1, hk.2.2, hk.1⟩
      · rw [Tree.merged_list, Tree.value_list, List.map_map]
        rfl
  | object members =>
      rw [Represents] at h
      rcases h with ⟨es, start, hnode, hmembers⟩
      rw [IsMade, node_of_getElem? hnode] at hmade
      rcases hmade with ⟨rfl, hknown⟩
      have hall := (List.forall₂_and_left _ _).mpr ⟨hknown, forall₂_members hmembers⟩
      have hnamed := forall₂_named (R := fun k u => n < k ∧ Represents nodes k u ∧ m.known k ≠ none)
        (hall.imp fun e u he => ⟨he.2.1, he.2.2.1, he.2.2.2, he.1⟩)
      refine ⟨(Site.namedOf members).map (·.2), ?_, ?_⟩
      · rw [parts, textEntries, List.map_map, List.forall₂_map_left_iff,
          List.forall₂_map_right_iff]
        exact hnamed.imp fun e u he => he.2
      · have hnames : (nodes.named es).map (·.1) = (Site.namedOf members).map (·.1) := by
          rw [← List.forall₂_eq_eq_eq, List.forall₂_map_left_iff, List.forall₂_map_right_iff]
          exact hnamed.imp fun e u he => he.1
        have hkeys : (textEntries (nodes.named es)).map (·.1) =
            (Site.namedOf members).map fun u => Value.text u.1 := by
          have htexts := congrArg (List.map Value.text) hnames
          rw [List.map_map, List.map_map] at htexts
          rw [textEntries, List.map_map]
          exact htexts
        show Value.dict _ = _
        rw [hkeys, List.map_map, List.zip_map', Tree.merged_object, Tree.value_object,
          List.map_map]
        rfl
  | null => simp only [Represents] at h
  | bool b => simp only [Represents] at h
  | int i => simp only [Represents] at h
  | float x => simp only [Represents] at h

theorem unfoldsTo_ofObject (hmade : ∀ n o, m.known n = some o → IsMade nodes m n o)
    {fuel n : Nat} {around : List Nat} {t : Tree} (h : Represents nodes n t)
    (hknown : m.known n ≠ none) (haround : ∀ k ∈ around, k < n) (hfuel : nodes.size ≤ fuel + n) :
    UnfoldsTo nodes (ofObject m.objects fuel around n) t.merged.value := by
  induction fuel generalizing n around t with
  | zero =>
      have hlt := IsSound.lt_size ⟨t, h⟩
      omega
  | succ fuel ih =>
      intro known hrecalls
      have houtside : around.contains n = false := by
        rw [Bool.eq_false_iff]
        intro hmem
        exact Nat.lt_irrefl n (haround n (by simpa using hmem))
      rw [ofObject, houtside, if_neg Bool.false_ne_true]
      rw [StateT.run_bind, StateT.run_get, pure_bind]
      dsimp only
      cases hu : known.getD n none with
      | some u =>
          refine ⟨known, ?_, hrecalls⟩
          rw [← hrecalls n u hu t h]
          rfl
      | none =>
          rcases Option.ne_none_iff_exists'.mp hknown with ⟨o, ho⟩
          rcases exists_parts (hmade n o ho) h with ⟨ts, hmembers, hbuild⟩
          have hunfold : List.Forall₂ (fun k u => UnfoldsTo nodes
              (ofObject m.objects fuel (n :: around) k) u.merged.value) (parts o).1 ts := by
            refine hmembers.imp fun k u hk => ih hk.2.1 hk.2.2 ?_ (by omega)
            intro a ha
            rcases List.mem_cons.mp ha with rfl | ha
            · exact hk.1
            · exact Nat.lt_trans (haround a ha) hk.1
          rcases run_mapM hunfold hrecalls with ⟨known₁, hrun, hrecalls₁⟩
          have hcollect := collect_closed n (ts.map fun u => u.merged.value) (parts o).2
          rw [hbuild] at hcollect
          rw [ObjectMaker.known] at ho
          rw [ho, Option.getD_some]
          dsimp only
          rw [StateT.run_bind, hrun]
          refine ⟨known₁.setIfInBounds n (some (closed t.merged.value)), ?_,
            hrecalls₁.remember fun t' ht' => by rw [h.unique ht']⟩
          show StateT.run (if (collect n _ (parts o).2).free.isEmpty = true then _ else _)
            known₁ = _
          rw [hcollect]
          rfl

end Objects

end Unfolding

/-- Where the first node represents an object, the document has its value. -/
theorem Document.value_of_represents {d : Document} {members : List (String × Tree)}
    (hroot : d.root = 0) (h : Represents d.nodes 0 (.object members)) :
    d.value = .ok (Tree.object members).merged.value := by
  have hsound : IsSound d.nodes 0 := ⟨_, h⟩
  have hstart : Progress d.nodes 0 [] ⟨d.nodes, Array.replicate d.nodes.size none, []⟩ := by
    refine ⟨rfl, Array.size_replicate, ?_, ?_, ?_, ?_⟩
    · intro n o hknown
      rw [ObjectMaker.known, Array.getD_eq_getD_getElem?, Array.getElem?_replicate] at hknown
      split at hknown <;> cases hknown
    · rintro n (hn | hn) <;> cases hn
    · rintro n ⟨⟩
    · rintro n ⟨⟩
  have hobjects : Makes (do
      let _ ← ObjectMaker.object d.root
      ObjectMaker.fillAll (d.nodes.size + 1)) ⟨d.nodes, Array.replicate d.nodes.size none, []⟩
      fun _ m => (m.objects.size = d.nodes.size
        ∧ ∀ n o, m.known n = some o → IsMade d.nodes m n o) ∧ m.known 0 ≠ none := by
    rw [hroot]
    refine (ObjectMaker.makes_object hstart hsound (Nat.le_refl 0)).bind ?_
    rintro o m ⟨hmet, _⟩
    refine (ObjectMaker.makes_fillAll hmet.progress (Nat.lt_succ_self _)).mono ?_
    rintro _ m' ⟨hmade, hgrows⟩
    exact ⟨hmade, hgrows 0 hmet.known⟩
  rcases hobjects with ⟨_, m, hrun, ⟨hsize, hmade⟩, hknown⟩
  have hdocument : d.objects = .ok m.objects := by
    rw [Document.objects]
    dsimp only
    rw [hrun]
    rfl
  rcases @Unfolding.unfoldsTo_ofObject d.nodes m hmade (m.objects.size + 1) 0 [] _ h hknown
    (by rintro k ⟨⟩) (by omega) _
    (Unfolding.recalls_replicate d.nodes m.objects.size) with ⟨known, hvalue, _⟩
  rw [Document.value, hdocument]
  simp only [bind, Except.bind, hroot, hvalue]
  rfl

end Yaml
end TextMate
