import TextMate.Draft.Walk
import TextMate.Proofs.Draft.Traversal
import TextMate.Proofs.Draft.Unmark

/-!
# The walk and the transformations as traversals

The walk ends with the fault of its trail, and notes nothing but patterns on the
way.  A transformation goes into a block before the block itself is transformed,
and stops as soon as there is a stray, so it is a traversal like the walk as long
as the function that it applies does not fail.
-/

namespace TextMate
namespace Draft

section Typed

variable {kind : Kind} {fields : List (Field × Value)} {f : Field} {v : Value}

theorem IsTyped.exists_read (h : IsTyped kind fields) (hf : f ∈ kind.fields) :
    ∃ v, read (.record kind fields) f = .ok v ∧ MayHold kind f v := by
  rcases h.holds f hf with ⟨v, hget, hv⟩
  refine ⟨v, ?_, hv⟩
  rw [read, hget]

theorem MayHold.fits_of_required (h : MayHold kind f v) (hdefault : kind.default? f ≠ some .null)
    (hf : f ≠ .patterns) : (contentOf f).Fits v := by
  cases h with
  | absent hnull => exact absurd hnull hdefault
  | fits hfits => exact hfits
  | tuple vs heq => exact absurd heq hf

theorem MayHold.null_or_fits (h : MayHold kind f v) (hf : f ≠ .patterns) :
    v = .null ∨ (contentOf f).Fits v := by
  cases h with
  | absent _ => exact Or.inl rfl
  | fits hfits => exact Or.inr hfits
  | tuple vs heq => exact absurd heq hf

theorem get?_record_cons (field : Field) (w : Value) :
    (Value.record kind ((field, w) :: fields)).get? f =
      if field = f then some w else (Value.record kind fields).get? f := by
  rw [Value.get?, List.find?_cons]
  by_cases h : field = f
  · rw [if_pos h, beq_iff_eq.mpr h]
    rfl
  · rw [if_neg h, beq_eq_false_iff_ne.mpr h]
    rfl

theorem IsTyped.exists_target (h : IsTyped .reference fields) :
    ∃ target, read (.record .reference fields) .target = .ok (.text target) := by
  rcases h.exists_read (f := .target) (by decide) with ⟨v, hread, hv⟩
  rcases hv.fits_of_required (by simp [Kind.default?]) (by decide) with ⟨target, rfl⟩
  exact ⟨target, hread⟩

def IsTypedPattern (v : Value) : Prop :=
  ∃ kind fields, v = .record kind fields ∧ kind.isPattern = true ∧ IsTyped kind fields

theorem inner_of_ne_block (h : kind ≠ .block) : inner (.record kind fields) = [] := by
  cases kind <;> first | rfl | exact absurd rfl h

theorem inside_of_ne_block (location : String) (h : kind ≠ .block) :
    inside location (.record kind fields) = [] := by
  rw [inside, inner_of_ne_block h]
  rfl

theorem inside_block {slot : Value} (location : String)
    (h : (Value.record .block fields).get? .patterns = some slot) :
    inside location (.record .block fields) =
      numbered (location ++ "/patterns/") (slotItems slot) := by
  rw [inside, inner, h]
  rfl

end Typed

/-!
## The walk
-/

namespace Trail

theorem andThen_of_passed {t : Trail} (u : Trail) (h : t.fault = none) :
    t.andThen u = ⟨t.visited ++ u.visited, u.fault⟩ := by
  rw [andThen, h]

theorem andThen_of_stopped {t : Trail} (u : Trail) {fault : Fault} (h : t.fault = some fault) :
    t.andThen u = t := by
  rw [andThen, h]

theorem mem_visited_andThen {t u : Trail} {n : String × Value}
    (h : n ∈ (t.andThen u).visited) : n ∈ t.visited ∨ n ∈ u.visited := by
  cases hfault : t.fault with
  | none =>
      rw [andThen_of_passed u hfault] at h
      exact List.mem_append.mp h
  | some fault =>
      rw [andThen_of_stopped u hfault] at h
      exact Or.inl h

end Trail

def walkAll : List (String × Value) → Trail
  | [] => .empty
  | n :: ns => (walk n.1 n.2).andThen (walkAll ns)

theorem walkItems_eq_walkAll (base : String) (start : Nat) (vs : List Value) :
    walkItems base start vs =
      walkAll ((vs.zipIdx start).map fun p => (base ++ toString p.2, p.1)) := by
  induction vs generalizing start with
  | nil => rfl
  | cons v vs ih => rw [walkItems, ih, List.zipIdx_cons, List.map_cons, walkAll]

theorem walkEntries_eq_walkAll (es : List (Value × Value)) :
    walkEntries es = walkAll (es.map fun e => (member "repository/" e.1, e.2)) := by
  induction es with
  | nil => rfl
  | cons e es ih => rw [walkEntries, ih, List.map_cons, walkAll]

theorem MayHold.walkSlot_eq {kind : Kind} {slot : Value} (h : MayHold kind .patterns slot)
    (base : String) : walkSlot base slot = walkAll (numbered base (slotItems slot)) := by
  cases h with
  | absent _ => rfl
  | fits hfits =>
      rcases hfits with ⟨vs, rfl⟩
      exact walkItems_eq_walkAll base 0 vs
  | tuple vs _ => exact walkItems_eq_walkAll base 0 vs

theorem walkField_eq {location : String} {fields : List (Field × Value)} {slot : Value}
    (h : (Value.record .block fields).get? .patterns = some slot) :
    walkField location fields = walkSlot (location ++ "/patterns/") slot := by
  induction fields with
  | nil => cases h
  | cons e fields ih =>
      rw [get?_record_cons] at h
      rw [walkField]
      by_cases he : e.1 = .patterns
      · rw [if_pos he] at h
        cases h
        rw [if_pos (beq_iff_eq.mpr he)]
      · rw [if_neg he] at h
        rw [if_neg (by simpa using he)]
        exact ih h

theorem walk_pattern {kind : Kind} {fields : List (Field × Value)} (location : String)
    (hkind : kind.isPattern = true) (htyped : IsTyped kind fields) :
    walk location (.record kind fields) =
      (walkAll (inside location (.record kind fields))).cons location (.record kind fields) := by
  rw [walk, hkind]
  by_cases hblock : kind = .block
  · cases hblock
    rcases htyped.holds .patterns (by decide) with ⟨slot, hget, hslot⟩
    rw [inside_block location hget, ← hslot.walkSlot_eq, ← walkField_eq hget]
    rfl
  · rw [inside_of_ne_block location hblock]
    simp [hblock, walkAll]

theorem walk_stray {v : Value} (location : String) (h : isPattern v = false) :
    walk location v = .stop (shapeFault location v) := by
  cases v with
  | record kind fields =>
      have hkind : kind.isPattern = false := h
      rw [walk, hkind]
      rfl
  | _ => rfl

def walking : Traversal where
  Passes location v := (walk location v).fault = none
  Fails location v fault := (walk location v).fault = some fault
  PassesAll ns := (walkAll ns).fault = none
  FailsAll ns fault := (walkAll ns).fault = some fault
  fails_stray location v h := by
    rw [walk_stray location h]
    rfl
  passes_pattern location kind fields hkind htyped h := by
    rw [walk_pattern location hkind htyped]
    exact h
  fails_pattern location kind fields fault hkind htyped h := by
    rw [walk_pattern location hkind htyped]
    exact h
  passes_nil := rfl
  passes_cons n ns h hns := by
    rw [walkAll, Trail.andThen_of_passed _ h]
    exact hns
  fails_head n ns fault h := by
    rw [walkAll, Trail.andThen_of_stopped _ h]
    exact h
  fails_tail n ns fault h hns := by
    rw [walkAll, Trail.andThen_of_passed _ h]
    exact hns

theorem mem_visited_walkAll {ns : List (String × Value)} {n : String × Value}
    (h : n ∈ (walkAll ns).visited) : ∃ m ∈ ns, n ∈ (walk m.1 m.2).visited := by
  induction ns with
  | nil => cases h
  | cons m ns ih =>
      rcases Trail.mem_visited_andThen h with hm | hns
      · exact ⟨m, List.mem_cons_self, hm⟩
      · rcases ih hns with ⟨k, hk, hn⟩
        exact ⟨k, List.mem_cons_of_mem m hk, hn⟩

theorem IsLoose.isTypedPattern_of_visited {v : Value} (h : IsLoose v) {location : String}
    {n : String × Value} (hn : n ∈ (walk location v).visited) : IsTypedPattern n.2 := by
  induction h generalizing location n with
  | @stray v hstray =>
      rw [walk_stray location hstray] at hn
      cases hn
  | @pattern kind fields hkind htyped _ ih =>
      rw [walk_pattern location hkind htyped] at hn
      rcases List.mem_cons.mp hn with rfl | hn
      · exact ⟨kind, fields, rfl, hkind, htyped⟩
      · rcases mem_visited_walkAll hn with ⟨m, hm, hn⟩
        exact ih m.2 (mem_of_mem_numbered hm) hn

/-!
## Transformations
-/

section Work

variable {α β : Type}

/-- Work that comes to an end without stopping. -/
def Completes (w : Work α) : Prop :=
  ∃ a, Yields w a

def StopsWith (w : Work α) (fault : Fault) : Prop :=
  ∀ met, w met = .error fault

variable {w : Work α} {a : α} {k : α → Work β} {fault : Fault}

theorem Completes.bind (hw : Completes w) (hk : ∀ a, Completes (k a)) : Completes (w >>= k) := by
  rcases hw with ⟨a, ha⟩
  rcases hk a with ⟨b, hb⟩
  exact ⟨b, ha.bind hb⟩

theorem stopsWith_stop (fault : Fault) : StopsWith (stop fault : Work α) fault :=
  fun _ => rfl

theorem StopsWith.bind (h : StopsWith w fault) (k : α → Work β) : StopsWith (w >>= k) fault := by
  intro met
  show (w met >>= fun r => k r.1 r.2) = _
  rw [h met]
  rfl

theorem Completes.bind_stopsWith (hw : Completes w) (hk : ∀ a, StopsWith (k a) fault) :
    StopsWith (w >>= k) fault := by
  rcases hw with ⟨a, ha⟩
  intro met
  rcases ha met with ⟨met', hmet'⟩
  show (w met >>= fun r => k r.1 r.2) = _
  rw [hmet']
  exact hk a met'

end Work

/-- Functions that do not fail at patterns; what is in a block may have changed before. -/
def Handles (f : Value → Except Fault Value) : Prop :=
  ∀ kind fields, kind.isPattern = true → (kind ≠ .block → IsTyped kind fields) →
    ∃ w, f (.record kind fields) = .ok w

theorem handles_total (f : Value → Value) : Handles fun v => .ok (f v) :=
  fun kind fields _ _ => ⟨f (.record kind fields), rfl⟩

theorem handles_unmarkTarget : Handles unmarkTarget := by
  intro kind fields hkind htyped
  cases kind with
  | reference =>
      rcases (htyped (by decide)).exists_target with ⟨target, hread⟩
      refine ⟨(Value.record .reference fields).put .target (.text (Include.unmark target)), ?_⟩
      rw [unmarkTarget, hread]
      rfl
  | _ => exact ⟨_, rfl⟩

def transformAll (f : Value → Except Fault Value) : List (String × Value) → Work (List Value)
  | [] => pure []
  | n :: ns => do
      let w ← transform f n.1 n.2
      let ws ← transformAll f ns
      return w :: ws

section Transformations

variable {f : Value → Except Fault Value}

theorem transformItems_eq_transformAll (base : String) (start : Nat) (vs : List Value) :
    transformItems f base start vs =
      transformAll f ((vs.zipIdx start).map fun p => (base ++ toString p.2, p.1)) := by
  induction vs generalizing start with
  | nil => rfl
  | cons v vs ih => rw [transformItems, ih, List.zipIdx_cons, List.map_cons, transformAll]

theorem transformEntries_eq (es : List (Value × Value)) :
    transformEntries f es =
      transformAll f (es.map fun e => (member "repository/" e.1, e.2)) >>= fun ws =>
        pure ((es.map (·.1)).zip ws) := by
  induction es with
  | nil => rfl
  | cons e es ih =>
      rw [transformEntries, ih, List.map_cons, transformAll]
      simp only [bind_assoc, pure_bind, List.map_cons, List.zip_cons_cons]

theorem MayHold.transformSlot_eq {kind : Kind} {slot : Value} (h : MayHold kind .patterns slot)
    (base : String) :
    ∃ wrap : List Value → Value, transformSlot f base slot =
      transformAll f (numbered base (slotItems slot)) >>= fun ws => pure (wrap ws) := by
  cases h with
  | absent _ => exact ⟨fun _ => .null, rfl⟩
  | fits hfits =>
      rcases hfits with ⟨vs, rfl⟩
      refine ⟨.list, ?_⟩
      rw [transformSlot, transformItems_eq_transformAll]
      rfl
  | tuple vs _ =>
      refine ⟨.list, ?_⟩
      rw [transformSlot, transformItems_eq_transformAll]
      rfl

theorem transformFields_of_absent {location : String} {fields : List (Field × Value)}
    (h : .patterns ∉ fields.map (·.1)) : transformFields f location fields = pure fields := by
  induction fields with
  | nil => rfl
  | cons e fields ih =>
      rw [List.map_cons, List.mem_cons, not_or] at h
      rw [transformFields, ih h.2, if_neg (by simpa using Ne.symm h.1), pure_bind]
      rfl

/-- Of the fields of a block only its slot is transformed, where fields are set once. -/
theorem transformFields_eq (location : String) {fields : List (Field × Value)} {slot : Value}
    (hnames : (fields.map (·.1)).Nodup)
    (h : (Value.record .block fields).get? .patterns = some slot) :
    ∃ refill : Value → List (Field × Value), transformFields f location fields =
      transformSlot f (location ++ "/patterns/") slot >>= fun w => pure (refill w) := by
  induction fields with
  | nil => cases h
  | cons e fields ih =>
      rw [List.map_cons, List.nodup_cons] at hnames
      rw [get?_record_cons] at h
      rw [transformFields]
      by_cases he : e.1 = .patterns
      · rw [if_pos he] at h
        cases h
        -- Fields are set once, so none of those behind is another slot.
        refine ⟨fun w => (e.1, w) :: fields, ?_⟩
        rw [if_pos (beq_iff_eq.mpr he), transformFields_of_absent (he ▸ hnames.1)]
        simp only [pure_bind]
      · rw [if_neg he] at h
        rcases ih hnames.2 h with ⟨refill, hrefill⟩
        refine ⟨fun w => e :: refill w, ?_⟩
        rw [if_neg (by simpa using he), pure_bind, hrefill]
        simp only [bind_assoc, pure_bind]

theorem transform_block {fields : List (Field × Value)} (location : String)
    (htyped : IsTyped .block fields) :
    ∃ refill : List Value → List (Field × Value),
      transform f location (.record .block fields) =
        transformAll f (inside location (.record .block fields)) >>= fun ws =>
          apply f (.record .block (refill ws)) := by
  rcases htyped.holds .patterns (by decide) with ⟨slot, hget, hslot⟩
  rcases transformFields_eq (f := f) location htyped.names hget with ⟨refill, hrefill⟩
  rcases hslot.transformSlot_eq (f := f) (location ++ "/patterns/") with ⟨wrap, hwrap⟩
  refine ⟨fun ws => refill (wrap ws), ?_⟩
  have htransform : transform f location (.record .block fields) =
      transformFields f location fields >>= fun fields => apply f (.record .block fields) := rfl
  rw [htransform, hrefill, hwrap, inside_block location hget]
  simp only [bind_assoc, pure_bind]

theorem transform_of_ne_block {kind : Kind} {fields : List (Field × Value)} (location : String)
    (hkind : kind.isPattern = true) (hblock : kind ≠ .block) :
    transform f location (.record kind fields) = apply f (.record kind fields) := by
  rw [transform, hkind]
  simp [hblock]

theorem transform_stray {v : Value} (location : String) (h : isPattern v = false) :
    transform f location v = stop (shapeFault location v) := by
  cases v with
  | record kind fields =>
      have hkind : kind.isPattern = false := h
      rw [transform, hkind]
      rfl
  | _ => rfl

theorem Handles.completes_apply (hf : Handles f) {kind : Kind} {fields : List (Field × Value)}
    (hkind : kind.isPattern = true) (htyped : kind ≠ .block → IsTyped kind fields) :
    Completes (apply f (.record kind fields)) := by
  rcases hf kind fields hkind htyped with ⟨w, hw⟩
  exact ⟨w, yields_apply hw⟩

def transforming (f : Value → Except Fault Value) (hf : Handles f) : Traversal where
  Passes location v := Completes (transform f location v)
  Fails location v fault := StopsWith (transform f location v) fault
  PassesAll ns := Completes (transformAll f ns)
  FailsAll ns fault := StopsWith (transformAll f ns) fault
  fails_stray location v h := by
    rw [transform_stray location h]
    exact stopsWith_stop _
  passes_pattern location kind fields hkind htyped h := by
    by_cases hblock : kind = .block
    · cases hblock
      rcases transform_block location htyped with ⟨refill, htransform⟩
      rw [htransform]
      exact h.bind fun ws => hf.completes_apply hkind fun hne => absurd rfl hne
    · rw [transform_of_ne_block location hkind hblock]
      exact hf.completes_apply hkind fun _ => htyped
  fails_pattern location kind fields fault hkind htyped h := by
    by_cases hblock : kind = .block
    · cases hblock
      rcases transform_block location htyped with ⟨refill, htransform⟩
      rw [htransform]
      exact h.bind _
    · rw [inside_of_ne_block location hblock] at h
      cases h []
  passes_nil := ⟨[], yields_pure []⟩
  passes_cons n ns h hns := h.bind fun w => hns.bind fun ws => ⟨w :: ws, yields_pure _⟩
  fails_head n ns fault h := h.bind _
  fails_tail n ns fault h hns := h.bind_stopsWith fun w => hns.bind _

end Transformations

end Draft
end TextMate
