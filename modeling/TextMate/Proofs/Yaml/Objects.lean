import TextMate.Proofs.Schema.Named
import TextMate.Proofs.Yaml.Nodes
import TextMate.Yaml.Object

/-!
# Objects of a document of texts

The nodes of a document get their objects level by level.  A collection waits
for its turn with no members in it; everything else that has an object has the
right one, and so have its members.  A member has a greater number than its
collection, so each level has greater numbers than the one before, and there are
no more levels than nodes.
-/

namespace TextMate
namespace Yaml

open Text Schema

/-!
## Nodes that represent something
-/

def IsSound (nodes : Nodes) (n : Nat) : Prop :=
  ∃ t, Represents nodes n t

def IsName (nodes : Nodes) (n : Nat) : Prop :=
  ∃ s, IsTextNode nodes n s

section Sound

variable {nodes : Nodes} {n : Nat}

theorem node_of_getElem? {node : Node} (h : nodes[n]? = some node) : nodes.node n = node := by
  rw [Nodes.node, Array.getD_eq_getD_getElem?, h]
  rfl

theorem IsTextNode.node {s : String} (h : IsTextNode nodes n s) :
    (nodes.node n).tag = .text ∧ (nodes.node n).content = .scalar (Codes.ofChars s.toList) := by
  rcases h with ⟨start, h⟩
  rw [node_of_getElem? h]
  exact ⟨rfl, rfl⟩

theorem IsTextNode.lt_size {s : String} (h : IsTextNode nodes n s) : n < nodes.size := by
  rcases h with ⟨start, h⟩
  exact (Array.getElem?_eq_some_iff.mp h).1

theorem IsName.isSound (h : IsName nodes n) : IsSound nodes n := by
  rcases h with ⟨s, h⟩
  exact ⟨.text s, by rw [Represents]; exact h⟩

theorem not_isName (h : (nodes.node n).tag ≠ .text) : ¬ IsName nodes n := by
  rintro ⟨s, hs⟩
  exact h hs.node.1

theorem isSound_items : ∀ {items : List Tree} {ns : List Nat}, RepresentsItems nodes n ns items →
    ∀ k ∈ ns, n < k ∧ IsSound nodes k
  | [], ns, h, k, hk => by
      rw [RepresentsItems] at h
      subst h
      cases hk
  | item :: items, ns, h, k, hk => by
      rw [RepresentsItems] at h
      rcases h with ⟨m, ns', rfl, hm, hitem, hitems⟩
      rcases List.mem_cons.mp hk with rfl | hk
      · exact ⟨hm, item, hitem⟩
      · exact isSound_items hitems k hk

theorem isSound_members : ∀ {members : List (String × Tree)} {es : List (Nat × Nat)},
    RepresentsMembers nodes n es members →
      ∀ e ∈ es, (n < e.1 ∧ IsName nodes e.1) ∧ n < e.2 ∧ IsSound nodes e.2
  | [], es, h, e, he => by
      rw [RepresentsMembers] at h
      subst h
      cases he
  | (name, t) :: members, es, h, e, he => by
      rw [RepresentsMembers] at h
      rcases h with ⟨k, m, es', rfl, hk, hm, hname, ht, hmembers⟩
      rcases List.mem_cons.mp he with rfl | he
      · exact ⟨⟨hk, name, hname⟩, hm, t, ht⟩
      · exact isSound_members hmembers e he

theorem IsSound.cases (h : IsSound nodes n) :
    IsName nodes n
      ∨ (∃ ns start, nodes[n]? = some ⟨.sequence, .sequence ns, start⟩
          ∧ ∀ k ∈ ns, n < k ∧ IsSound nodes k)
      ∨ ∃ es start, nodes[n]? = some ⟨.mapping, .mapping es, start⟩
          ∧ ∀ e ∈ es, (n < e.1 ∧ IsName nodes e.1) ∧ n < e.2 ∧ IsSound nodes e.2 := by
  rcases h with ⟨t, h⟩
  cases t with
  | text s =>
      rw [Represents] at h
      exact Or.inl ⟨s, h⟩
  | list items =>
      rw [Represents] at h
      rcases h with ⟨ns, start, hnode, hitems⟩
      exact Or.inr (Or.inl ⟨ns, start, hnode, isSound_items hitems⟩)
  | object members =>
      rw [Represents] at h
      rcases h with ⟨es, start, hnode, hmembers⟩
      exact Or.inr (Or.inr ⟨es, start, hnode, isSound_members hmembers⟩)
  | null => simp only [Represents] at h
  | bool b => simp only [Represents] at h
  | int i => simp only [Represents] at h
  | float x => simp only [Represents] at h

theorem IsSound.lt_size (h : IsSound nodes n) : n < nodes.size := by
  rcases h.cases with ⟨s, hs⟩ | ⟨ns, start, hnode, _⟩ | ⟨es, start, hnode, _⟩
  · exact hs.lt_size
  · exact (Array.getElem?_eq_some_iff.mp hnode).1
  · exact (Array.getElem?_eq_some_iff.mp hnode).1

end Sound

/-!
## Work that succeeds
-/

/-- Work that succeeds from a state on, with a result and a state of which something is true. -/
def Makes {α : Type} (work : Making α) (m : ObjectMaker) (post : α → ObjectMaker → Prop) : Prop :=
  ∃ a m', work.run m = .ok (a, m') ∧ post a m'

section Makes

variable {α β : Type} {m : ObjectMaker}

theorem makes_pure {a : α} {post : α → ObjectMaker → Prop} (h : post a m) :
    Makes (pure a) m post :=
  ⟨a, m, rfl, h⟩

theorem makes_get_bind {next : ObjectMaker → Making β} {post : β → ObjectMaker → Prop}
    (h : Makes (next m) m post) : Makes (get >>= next) m post :=
  h

theorem makes_set_bind {m' : ObjectMaker} {next : Unit → Making β}
    {post : β → ObjectMaker → Prop} (h : Makes (next ()) m' post) :
    Makes (set m' >>= next) m post :=
  h

theorem makes_modify_bind {change : ObjectMaker → ObjectMaker} {next : Unit → Making β}
    {post : β → ObjectMaker → Prop} (h : Makes (next ()) (change m) post) :
    Makes (modify change >>= next) m post :=
  h

theorem makes_lift_bind {x : Except Fault α} {a : α} {next : α → Making β}
    {post : β → ObjectMaker → Prop} (hx : x = .ok a) (h : Makes (next a) m post) :
    Makes (liftM x >>= next) m post := by
  subst hx
  exact h

theorem Makes.bind {work : Making α} {next : α → Making β} {middle : α → ObjectMaker → Prop}
    {post : β → ObjectMaker → Prop} (h : Makes work m middle)
    (hnext : ∀ a m', middle a m' → Makes (next a) m' post) : Makes (work >>= next) m post := by
  rcases h with ⟨a, m', hrun, hmiddle⟩
  rcases hnext a m' hmiddle with ⟨b, m'', hrun', hpost⟩
  refine ⟨b, m'', ?_, hpost⟩
  rw [StateT.run_bind, hrun]
  exact hrun'

theorem Makes.mono {work : Making α} {post post' : α → ObjectMaker → Prop}
    (h : Makes work m post) (himp : ∀ a m', post a m' → post' a m') : Makes work m post' := by
  rcases h with ⟨a, m', hrun, hpost⟩
  exact ⟨a, m', hrun, himp a m' hpost⟩

theorem makes_foldlM {step : β → α → Making β} (P : List α → β → ObjectMaker → Prop)
    {xs : List α} {b : β} (h : P [] b m)
    (hstep : ∀ met x b m, x ∈ xs → P met b m → Makes (step b x) m (P (met ++ [x]))) :
    Makes (xs.foldlM step b) m (P xs) := by
  have hfold : ∀ (xs met : List α) (b : β) (m : ObjectMaker), P met b m →
      (∀ met x b m, x ∈ xs → P met b m → Makes (step b x) m (P (met ++ [x]))) →
        Makes (xs.foldlM step b) m (P (met ++ xs)) := by
    intro xs
    induction xs with
    | nil =>
        intro met b m h _
        rw [List.foldlM_nil, List.append_nil]
        exact makes_pure h
    | cons x xs ih =>
        intro met b m h hstep
        rw [List.foldlM_cons, List.append_cons]
        refine (hstep met x b m List.mem_cons_self h).bind fun b' m' hnext => ?_
        exact ih (met ++ [x]) b' m' hnext fun met y b m hy =>
          hstep met y b m (List.mem_cons_of_mem _ hy)
  exact hfold xs [] b m h hstep

theorem makes_forIn {round : α → Making β} (P : List α → ObjectMaker → Prop) {xs : List α}
    (h : P [] m)
    (hround : ∀ met x m, x ∈ xs → P met m → Makes (round x) m fun _ => P (met ++ [x])) :
    Makes (forIn xs PUnit.unit fun x _ => do
      let _ ← round x
      pure (.yield PUnit.unit)) m fun _ => P xs := by
  have hloop : ∀ xs : List α,
      (forIn xs PUnit.unit fun x _ => do
        let _ ← round x
        pure (.yield PUnit.unit) : Making PUnit) =
      xs.foldlM (fun _ x => do
        let _ ← round x
        pure PUnit.unit) PUnit.unit := by
    intro xs
    induction xs with
    | nil => rfl
    | cons x xs ih =>
        rw [List.forIn_cons, List.foldlM_cons, bind_assoc, bind_assoc]
        refine congrArg (round x >>= ·) (funext fun _ => ?_)
        rw [pure_bind, pure_bind]
        exact ih
  rw [hloop]
  refine makes_foldlM (fun met _ => P met) h fun met x _ m hx hmet => ?_
  exact (hround met x m hx hmet).bind fun _ m' hnext => makes_pure hnext

end Makes

/-!
## Objects that are made
-/

def Nodes.nameOf (nodes : Nodes) (n : Nat) : String :=
  match (nodes.node n).content with
  | .scalar codes => codes.text?.getD ""
  | _ => ""

theorem IsTextNode.nameOf {nodes : Nodes} {n : Nat} {s : String} (h : IsTextNode nodes n s) :
    nodes.nameOf n = s := by
  rw [Nodes.nameOf, h.node.2]
  dsimp only
  rw [Codes.text?_ofChars, String.ofList_toList]
  rfl

def Nodes.named (nodes : Nodes) (es : List (Nat × Nat)) : List (String × Nat) :=
  Site.namedOf (es.map fun e => (nodes.nameOf e.1, e.2))

theorem Nodes.named_snoc (nodes : Nodes) (es : List (Nat × Nat)) (e : Nat × Nat) :
    nodes.named (es ++ [e]) = Site.setNamed (nodes.named es) (nodes.nameOf e.1) e.2 := by
  simp only [Nodes.named, Site.namedOf, List.map_append, List.foldl_append, List.map_cons,
    List.map_nil, List.foldl_cons, List.foldl_nil]

def textEntries (named : List (String × Nat)) : List (Value × Nat) :=
  named.map fun e => (.text e.1, e.2)

def ObjectMaker.known (m : ObjectMaker) (n : Nat) : Option Object :=
  m.objects.getD n none

def ObjectMaker.hold (m : ObjectMaker) (n : Nat) (o : Object) : ObjectMaker :=
  { m with objects := m.objects.setIfInBounds n (some o) }

/-- The object is the one of the node, and its members have objects. -/
def IsMade (nodes : Nodes) (m : ObjectMaker) (n : Nat) (o : Object) : Prop :=
  match (nodes.node n).content with
  | .scalar codes => ∃ identity, o = .scalar (.ofCodes codes) identity
  | .sequence ns => o = .list ns ∧ ∀ k ∈ ns, m.known k ≠ none
  | .mapping es => o = .dict (textEntries (nodes.named es)) ∧ ∀ e ∈ es, m.known e.2 ≠ none

def Grows (m m' : ObjectMaker) : Prop :=
  ∀ n, m.known n ≠ none → m'.known n ≠ none

theorem Grows.refl (m : ObjectMaker) : Grows m m :=
  fun _ h => h

theorem Grows.trans {a b c : ObjectMaker} (h : Grows a b) (h' : Grows b c) : Grows a c :=
  fun n hn => h' n (h n hn)

/-- What has become of a document of texts: the collections of the level at hand that still wait
and those of the next level are empty, everything else that has an object has the right one. -/
structure Progress (nodes : Nodes) (bound : Nat) (waiting : List Nat) (m : ObjectMaker) :
    Prop where
  nodes_eq : m.nodes = nodes
  size_eq : m.objects.size = nodes.size
  made : ∀ n o, m.known n = some o → IsMade nodes m n o ∨ n ∈ waiting ∨ n ∈ m.pending
  sound : ∀ n, n ∈ waiting ∨ n ∈ m.pending → IsSound nodes n ∧ ¬ IsName nodes n
  waiting_ge : ∀ n ∈ waiting, bound ≤ n + 1
  pending_ge : ∀ n ∈ m.pending, bound ≤ n

section Progress

variable {nodes : Nodes} {bound n : Nat} {waiting waiting' : List Nat} {m m' : ObjectMaker}
  {o : Object}

theorem known_ne_none (h : m.known n = some o) : m.known n ≠ none := by
  rw [h]
  exact Option.some_ne_none o

theorem known_hold (hn : n < m.objects.size) (k : Nat) :
    (m.hold n o).known k = if k = n then some o else m.known k := by
  simp only [ObjectMaker.known, ObjectMaker.hold, Array.getD_eq_getD_getElem?]
  split
  next heq =>
    subst heq
    rw [Array.getElem?_setIfInBounds_self_of_lt hn]
    rfl
  next hne => rw [Array.getElem?_setIfInBounds_ne (Ne.symm hne)]

theorem grows_hold (hn : n < m.objects.size) : Grows m (m.hold n o) := by
  intro k hk
  rw [known_hold hn]
  split
  · exact Option.some_ne_none o
  · exact hk

theorem IsMade.of_grows {k : Nat} {o : Object} (h : IsMade nodes m k o) (hgrows : Grows m m') :
    IsMade nodes m' k o := by
  unfold IsMade at h ⊢
  split
  next hcontent =>
    rw [hcontent] at h
    exact h
  next hcontent =>
    rw [hcontent] at h
    exact ⟨h.1, fun i hi => hgrows i (h.2 i hi)⟩
  next hcontent =>
    rw [hcontent] at h
    exact ⟨h.1, fun e he => hgrows e.2 (h.2 e he)⟩

theorem Progress.hold_made (h : Progress nodes bound waiting' m) (hn : n < nodes.size)
    (hmade : IsMade nodes m n o) (hleft : ∀ k ∈ waiting', k = n ∨ k ∈ waiting)
    (hsub : ∀ k ∈ waiting, k ∈ waiting') : Progress nodes bound waiting (m.hold n o) := by
  have hsize : n < m.objects.size := by rw [h.size_eq]; exact hn
  refine ⟨h.nodes_eq, ?_, ?_, ?_, fun k hk => h.waiting_ge k (hsub k hk), h.pending_ge⟩
  · show (m.objects.setIfInBounds n (some o)).size = nodes.size
    rw [Array.size_setIfInBounds, h.size_eq]
  · intro k o' hknown
    rw [known_hold hsize] at hknown
    by_cases hk : k = n
    · rw [if_pos hk, Option.some.injEq] at hknown
      subst hk hknown
      exact Or.inl (hmade.of_grows (grows_hold hsize))
    · rw [if_neg hk] at hknown
      rcases h.made k o' hknown with hmade' | hwait | hpending
      · exact Or.inl (hmade'.of_grows (grows_hold hsize))
      · exact Or.inr (Or.inl ((hleft k hwait).resolve_left hk))
      · exact Or.inr (Or.inr hpending)
  · intro k hk
    exact h.sound k (hk.imp_left (hsub k))

theorem Progress.hold_empty (h : Progress nodes bound waiting m) (hsound : IsSound nodes n)
    (hname : ¬ IsName nodes n) (hbound : bound ≤ n) :
    Progress nodes bound waiting { m.hold n o with pending := n :: m.pending } := by
  have hsize : n < m.objects.size := by rw [h.size_eq]; exact hsound.lt_size
  refine ⟨h.nodes_eq, ?_, ?_, ?_, h.waiting_ge, ?_⟩
  · show (m.objects.setIfInBounds n (some o)).size = nodes.size
    rw [Array.size_setIfInBounds, h.size_eq]
  · intro k o' hknown
    have hknown' : (m.hold n o).known k = some o' := hknown
    rw [known_hold hsize] at hknown'
    by_cases hk : k = n
    · exact Or.inr (Or.inr (by rw [hk]; exact List.mem_cons_self))
    · rw [if_neg hk] at hknown'
      rcases h.made k o' hknown' with hmade' | hwait | hpending
      · exact Or.inl (hmade'.of_grows (grows_hold hsize))
      · exact Or.inr (Or.inl hwait)
      · exact Or.inr (Or.inr (List.mem_cons_of_mem _ hpending))
  · rintro k (hk | hk)
    · exact h.sound k (Or.inl hk)
    · rcases List.mem_cons.mp hk with rfl | hk
      · exact ⟨hsound, hname⟩
      · exact h.sound k (Or.inr hk)
  · intro k hk
    rcases List.mem_cons.mp hk with rfl | hk
    · exact hbound
    · exact h.pending_ge k hk

/-- The collections of a level are due when those of the level before have their members. -/
theorem Progress.level (h : Progress nodes bound [] m) :
    Progress nodes (bound + 1) m.pending.reverse { m with pending := [] } where
  nodes_eq := h.nodes_eq
  size_eq := h.size_eq
  made := by
    intro n o hknown
    rcases h.made n o hknown with hmade | hwait | hpending
    · exact Or.inl hmade
    · cases hwait
    · exact Or.inr (Or.inl (List.mem_reverse.mpr hpending))
  sound := by
    rintro n (hn | hn)
    · exact h.sound n (Or.inr (List.mem_reverse.mp hn))
    · cases hn
  waiting_ge := fun n hn => Nat.succ_le_succ (h.pending_ge n (List.mem_reverse.mp hn))
  pending_ge := fun n hn => nomatch hn

end Progress

namespace ObjectMaker

section Steps

variable {nodes : Nodes} {bound n : Nat} {waiting : List Nat} {m : ObjectMaker}

structure Met (nodes : Nodes) (bound : Nat) (waiting : List Nat) (m : ObjectMaker) (n : Nat)
    (m' : ObjectMaker) : Prop where
  progress : Progress nodes bound waiting m'
  grows : Grows m m'
  known : m'.known n ≠ none

structure AllMet (nodes : Nodes) (bound : Nat) (waiting : List Nat) (m : ObjectMaker)
    (ns : List Nat) (m' : ObjectMaker) : Prop where
  progress : Progress nodes bound waiting m'
  grows : Grows m m'
  known : ∀ n ∈ ns, m'.known n ≠ none

theorem AllMet.nil (h : Progress nodes bound waiting m) : AllMet nodes bound waiting m [] m where
  progress := h
  grows := Grows.refl m
  known := fun _ hn => nomatch hn

theorem AllMet.snoc {ns : List Nat} {m₁ m₂ : ObjectMaker}
    (h : AllMet nodes bound waiting m ns m₁) (hmet : Met nodes bound waiting m₁ n m₂) :
    AllMet nodes bound waiting m (ns ++ [n]) m₂ where
  progress := hmet.progress
  grows := h.grows.trans hmet.grows
  known := by
    intro k hk
    rcases List.mem_append.mp hk with hk | hk
    · exact hmet.grows k (h.known k hk)
    · rw [List.mem_singleton.mp hk]
      exact hmet.known

theorem makes_put_bind {β : Type} {o : Object} {next : Unit → Making β}
    {post : β → ObjectMaker → Prop} (h : Makes (next ()) (m.hold n o) post) :
    Makes (put n o >>= next) m post :=
  h

theorem scalarOf_name {s : String} (h : IsTextNode nodes n s) :
    ∃ identity, scalarOf nodes n = .ok (.scalar (.text s) identity) := by
  refine ⟨if isUndefinedWord (Codes.ofChars s.toList) then none else some n, ?_⟩
  rw [scalarOf, Nodes.scalarValue, h.node.1]
  simp only [Nodes.scalarCodes, h.node.2]
  simp only [bind, Except.bind, Value.ofCodes_ofChars, String.ofList_toList, pure, Except.pure]

theorem makes_object (h : Progress nodes bound waiting m) (hsound : IsSound nodes n)
    (hbound : bound ≤ n) :
    Makes (object n) m fun o m' => Met nodes bound waiting m n m' ∧ m'.known n = some o := by
  have hsize : n < m.objects.size := by rw [h.size_eq]; exact hsound.lt_size
  have hself : ∀ o, (m.hold n o).known n = some o := fun o => by
    rw [known_hold hsize, if_pos rfl]
  have hempty : ∀ o, ¬ IsName nodes n → Makes (do
        put n o
        modify fun m => { m with pending := n :: m.pending }
        return o) m fun o m' => Met nodes bound waiting m n m' ∧ m'.known n = some o := by
    intro o hname
    refine makes_put_bind (makes_modify_bind (makes_pure ⟨?_, hself o⟩))
    exact ⟨h.hold_empty hsound hname hbound, grows_hold hsize,
      known_ne_none (hself o)⟩
  rw [object]
  refine makes_get_bind ?_
  cases hknown : m.known n with
  | some o =>
      rw [show m.objects.getD n none = some o from hknown]
      exact makes_pure ⟨⟨h, Grows.refl m, known_ne_none hknown⟩, hknown⟩
  | none =>
      rw [show m.objects.getD n none = none from hknown, h.nodes_eq]
      rcases hsound.cases with ⟨s, hs⟩ | ⟨ns, start, hnode, _⟩ | ⟨es, start, hnode, _⟩
      · rcases scalarOf_name hs with ⟨identity, hscalar⟩
        rw [hs.node.1]
        refine makes_lift_bind hscalar (makes_put_bind (makes_pure ⟨?_, hself _⟩))
        refine ⟨h.hold_made hsound.lt_size ?_ (fun _ => Or.inr) fun _ => id, grows_hold hsize,
          known_ne_none (hself _)⟩
        rw [IsMade, hs.node.2]
        exact ⟨identity, by rw [Value.ofCodes_ofChars, String.ofList_toList]⟩
      · have hname := @not_isName nodes n (by simp [node_of_getElem? hnode])
        rw [node_of_getElem? hnode]
        exact hempty (.list []) hname
      · have hname := @not_isName nodes n (by simp [node_of_getElem? hnode])
        rw [node_of_getElem? hnode]
        exact hempty (.dict []) hname

theorem makes_keyOf (h : Progress nodes bound waiting m) {s : String} (hs : IsTextNode nodes n s)
    (hbound : bound ≤ n) (start : Mark) :
    Makes (keyOf start n) m fun key m' => Met nodes bound waiting m n m' ∧ key.1 = .text s := by
  rw [keyOf]
  refine (makes_object h (IsName.isSound ⟨s, hs⟩) hbound).bind ?_
  rintro o m' ⟨hmet, hknown⟩
  rcases hmet.progress.made n o hknown with hmade | hqueued
  · rw [IsMade, hs.node.2] at hmade
    rcases hmade with ⟨identity, rfl⟩
    exact makes_pure ⟨hmet, by rw [Value.ofCodes_ofChars, String.ofList_toList]⟩
  · exact absurd ⟨s, hs⟩ (hmet.progress.sound n hqueued).2

end Steps

/-!
## Members of mappings
-/

theorem merge_names {nodes : Nodes} {n : Nat} {es : List (Nat × Nat)}
    (hcontent : (nodes.node n).content = .mapping es) (hnames : ∀ e ∈ es, IsName nodes e.1) :
    nodes.merge n = .ok nodes := by
  have htag : ∀ e ∈ es, (nodes.node e.1).tag = .text := by
    intro e he
    rcases hnames e he with ⟨s, hs⟩
    exact hs.node.1
  have hasks : nodes.asks n = false := by
    rw [Nodes.asks, hcontent, Content.entries, List.any_eq_false]
    intro e he
    rw [htag e he]
    decide
  have hfold : ∀ es : List (Nat × Nat), (∀ e ∈ es, (nodes.node e.1).tag = .text) →
      es.foldl (fun nodes e =>
        if (nodes.node e.1).tag == .default then nodes.setTag e.1 .text else nodes) nodes =
          nodes := by
    intro es hes
    induction es with
    | nil => rfl
    | cons e es ih =>
        rw [List.foldl_cons, hes e List.mem_cons_self]
        exact ih fun e he => hes e (List.mem_cons_of_mem _ he)
  rw [Nodes.merge, hasks]
  show Except.ok (nodes.prepend n []) = .ok nodes
  rw [Nodes.prepend, hcontent]
  exact congrArg Except.ok (hfold es htag)

theorem sameKey_text (s : String) (identity : Option Nat) (key : Key) :
    sameKey (.text s, identity) key = (Value.text s).same key.1 := by
  rw [sameKey]

theorem setMember_text {members : List (Key × Nat)} {named : List (String × Nat)}
    (h : members.map (fun e => (e.1.1, e.2)) = textEntries named) (s : String)
    (identity : Option Nat) (n : Nat) :
    (setMember members (.text s, identity) n).map (fun e => (e.1.1, e.2)) =
      textEntries (Site.setNamed named s n) := by
  have hany : members.any (fun e => sameKey (.text s, identity) e.1) =
      named.any fun e => e.1 == s := by
    have hleft : members.any (fun e => sameKey (.text s, identity) e.1) =
        (members.map fun e => (e.1.1, e.2)).any fun e => (Value.text s).same e.1 := by
      rw [List.any_map]
      exact congrArg members.any (funext fun e => sameKey_text s identity e.1)
    rw [hleft, h, textEntries, List.any_map]
    refine congrArg named.any (funext fun e => ?_)
    rw [Function.comp_apply, Value.same_text, Bool.beq_comm]
  have hset : members.map ((fun e => (e.1.1, e.2)) ∘ fun e =>
      if sameKey (.text s, identity) e.1 then (e.1, n) else e) =
        (members.map fun e => (e.1.1, e.2)).map fun e =>
          if (Value.text s).same e.1 then (e.1, n) else e := by
    rw [List.map_map]
    refine congrArg members.map (funext fun e => ?_)
    simp only [Function.comp_apply, sameKey_text]
    split <;> rfl
  rw [setMember, Site.setNamed, hany]
  split
  next =>
    rw [List.map_map, hset, h, textEntries, textEntries, List.map_map, List.map_map]
    refine congrArg named.map (funext fun e => ?_)
    simp only [Function.comp_apply, Value.same_text]
    by_cases heq : e.1 = s
    · rw [if_pos (beq_iff_eq.mpr heq.symm), if_pos (beq_iff_eq.mpr heq), heq]
    · rw [if_neg (by simpa using fun h => heq h.symm), if_neg (by simpa using heq)]
  next =>
    rw [List.map_append, h, textEntries, textEntries, List.map_append]
    rfl

section Fill

variable {nodes : Nodes} {bound n : Nat} {waiting : List Nat} {m : ObjectMaker}

theorem makes_entriesOf (h : Progress nodes bound waiting m) {es : List (Nat × Nat)}
    {start : Mark} (hnode : nodes[n]? = some ⟨.mapping, .mapping es, start⟩)
    (hes : ∀ e ∈ es, (n < e.1 ∧ IsName nodes e.1) ∧ n < e.2 ∧ IsSound nodes e.2)
    (hbound : bound ≤ n + 1) :
    Makes (entriesOf n) m fun entries m' => entries = textEntries (nodes.named es)
      ∧ AllMet nodes bound waiting m (es.map (·.2)) m' := by
  have hsame : { m with nodes := nodes } = m := by
    rcases m with ⟨nodes', objects, pending⟩
    cases h.nodes_eq
    rfl
  have hcontent : (nodes.node n).content = .mapping es := by rw [node_of_getElem? hnode]
  have hmerge := merge_names hcontent fun e he => (hes e he).1.2
  rw [entriesOf, nodeOf]
  refine makes_get_bind ?_
  rw [h.nodes_eq, node_of_getElem? hnode]
  refine makes_get_bind ?_
  rw [h.nodes_eq]
  refine makes_lift_bind hmerge (makes_modify_bind ?_)
  rw [hsame, node_of_getElem? hnode, Content.entries]
  refine (makes_foldlM (fun met members m' =>
    members.map (fun e => (e.1.1, e.2)) = textEntries (nodes.named met)
      ∧ AllMet nodes bound waiting m (met.map (·.2)) m') ⟨rfl, AllMet.nil h⟩ ?_).bind ?_
  · rintro met e members m' he ⟨hmembers, hmet⟩
    rcases hes e he with ⟨⟨hlt, s, hs⟩, hlt', hsound⟩
    refine (makes_keyOf hmet.progress hs (by omega) start).bind ?_
    rintro ⟨value, identity⟩ m₁ ⟨hmet₁, hkey⟩
    have hvalue : value = .text s := hkey
    subst hvalue
    refine (makes_object hmet₁.progress hsound (by omega)).bind ?_
    rintro o m₂ ⟨hmet₂, _⟩
    refine makes_pure ⟨?_, ?_⟩
    · rw [setMember_text hmembers, Nodes.named_snoc, hs.nameOf]
    · rw [List.map_append]
      exact hmet.snoc ⟨hmet₂.progress, hmet₁.grows.trans hmet₂.grows, hmet₂.known⟩
  · rintro members m' ⟨hmembers, hmet⟩
    exact makes_pure ⟨hmembers, hmet⟩

theorem makes_fill (h : Progress nodes bound (n :: waiting) m) :
    Makes (fill n) m fun _ m' => Progress nodes bound waiting m' ∧ Grows m m' := by
  rcases h.sound n (Or.inl List.mem_cons_self) with ⟨hsound, hname⟩
  have hbound := h.waiting_ge n List.mem_cons_self
  have hdone : ∀ {ns : List Nat} {m' : ObjectMaker} {o : Object},
      AllMet nodes bound (n :: waiting) m ns m' → IsMade nodes m' n o →
        Makes (put n o) m' fun _ m'' => Progress nodes bound waiting m'' ∧ Grows m m'' := by
    intro ns m' o hmet hmade
    have hsize : n < m'.objects.size := by rw [hmet.progress.size_eq]; exact hsound.lt_size
    exact ⟨(), m'.hold n o, rfl, hmet.progress.hold_made hsound.lt_size hmade
      (fun k => List.mem_cons.mp) fun k => List.mem_cons_of_mem n,
      hmet.grows.trans (grows_hold hsize)⟩
  rw [fill, nodeOf]
  refine makes_get_bind ?_
  rw [h.nodes_eq]
  rcases hsound.cases with hname' | ⟨ns, start, hnode, hns⟩ | ⟨es, start, hnode, hes⟩
  · exact absurd hname' hname
  · rw [node_of_getElem? hnode]
    refine (makes_forIn (AllMet nodes bound (n :: waiting) m) (AllMet.nil h) ?_).bind ?_
    · intro met k m' hk hmet
      rcases hns k hk with ⟨hlt, hsound'⟩
      refine (makes_object hmet.progress hsound' (by omega)).mono ?_
      rintro o m'' ⟨hmet', _⟩
      exact hmet.snoc hmet'
    · intro _ m' hmet
      refine hdone hmet ?_
      rw [IsMade, node_of_getElem? hnode]
      exact ⟨rfl, hmet.known⟩
  · rw [node_of_getElem? hnode]
    refine (makes_entriesOf h hnode hes hbound).bind ?_
    rintro entries m' ⟨rfl, hmet⟩
    refine hdone hmet ?_
    rw [IsMade, node_of_getElem? hnode]
    exact ⟨rfl, fun e he => hmet.known e.2 (List.mem_map_of_mem he)⟩

theorem makes_fill_level : ∀ {ns : List Nat} {m : ObjectMaker}, Progress nodes bound ns m →
    Makes (forIn ns PUnit.unit fun n _ => do
      fill n
      pure (.yield PUnit.unit)) m fun _ m' => Progress nodes bound [] m' ∧ Grows m m'
  | [], m, h => by
      rw [List.forIn_nil]
      exact makes_pure ⟨h, Grows.refl m⟩
  | n :: ns, m, h => by
      rw [List.forIn_cons, bind_assoc]
      refine (makes_fill h).bind ?_
      rintro _ m' ⟨hprogress, hgrows⟩
      rw [pure_bind]
      refine (makes_fill_level hprogress).mono ?_
      rintro _ m'' ⟨hprogress', hgrows'⟩
      exact ⟨hprogress', hgrows.trans hgrows'⟩

/-- Each level has greater numbers than the one before, so every collection has its turn. -/
theorem makes_fillAll : ∀ {fuel bound : Nat} {m : ObjectMaker}, Progress nodes bound [] m →
    nodes.size < fuel + bound →
      Makes (fillAll fuel) m fun _ m' =>
        (m'.objects.size = nodes.size ∧ ∀ n o, m'.known n = some o → IsMade nodes m' n o)
          ∧ Grows m m'
  | fuel, bound, m, h, hfuel => by
      have hend : m.pending = [] →
          m.objects.size = nodes.size ∧ ∀ n o, m.known n = some o → IsMade nodes m n o := by
        intro hpending
        refine ⟨h.size_eq, fun n o hknown => ?_⟩
        rcases h.made n o hknown with hmade | hwait | hmem
        · exact hmade
        · cases hwait
        · rw [hpending] at hmem
          cases hmem
      cases fuel with
      | zero =>
          refine makes_pure ⟨hend ?_, Grows.refl m⟩
          rw [List.eq_nil_iff_forall_not_mem]
          intro n hn
          have hge := h.pending_ge n hn
          have hlt := (h.sound n (Or.inr hn)).1.lt_size
          omega
      | succ fuel =>
          rw [fillAll]
          refine makes_get_bind ?_
          cases hpending : m.pending with
          | nil => exact makes_pure ⟨hend hpending, Grows.refl m⟩
          | cons n ns =>
              refine makes_set_bind ?_
              rw [← hpending]
              refine (makes_fill_level h.level).bind ?_
              rintro _ m' ⟨hprogress, hgrows⟩
              refine (makes_fillAll hprogress (by omega)).mono ?_
              rintro _ m'' ⟨hmade, hgrows'⟩
              exact ⟨hmade, fun k hk => hgrows' k (hgrows k hk)⟩

end Fill

end ObjectMaker

end Yaml
end TextMate
