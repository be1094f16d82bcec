import TextMate.Proofs.Draft.Unmark

/-!
# What documents of drafts show

What a document shows of a value: of a collection the members that are not empty,
and of an object its fields under their keys, the required ones always and an
optional one exactly if what it holds is not empty.  Whether something is empty is
asked of the value as it was before marks were taken away and members left out.
-/

namespace TextMate
namespace Draft

open Schema

def shown (v : Value) : Value :=
  plain (unmarked v)

theorem plainItems_eq (vs : List Value) :
    plainItems vs = (vs.filter fun v => !isEmptyMember v).map plain := by
  induction vs with
  | nil => rfl
  | cons v vs ih =>
      rw [plainItems, List.filter_cons, ih]
      cases isEmptyMember v <;> rfl

theorem plainEntries_eq (es : List (Value × Value)) :
    plainEntries es =
      (es.filter fun e => !isEmptyMember e.2).map fun e => (e.1, plain e.2) := by
  induction es with
  | nil => rfl
  | cons e es ih =>
      rw [plainEntries, List.filter_cons, ih]
      cases isEmptyMember e.2 <;> rfl

theorem plainFields_eq (kind : Kind) (fields : List (Field × Value)) :
    plainFields kind fields =
      (fields.filter fun f => !(kind.dropsEmpty f.1 && isEmpty f.2)).map
        fun f => (f.1, plain f.2) := by
  induction fields with
  | nil => rfl
  | cons f fields ih =>
      rw [plainFields, List.filter_cons, ih]
      cases kind.dropsEmpty f.1 && isEmpty f.2 <;> rfl

def isNull (v : Value) : Bool :=
  v matches .null

@[simp] theorem isNull_iff (v : Value) : isNull v = true ↔ v = .null := by
  cases v <;> simp [isNull]

@[simp] theorem isNull_unmarked (v : Value) : isNull (unmarked v) = isNull v := by
  cases v <;> rfl

@[simp] theorem isNull_unmarkedText (v : Value) : isNull (unmarkedText v) = isNull v := by
  cases v <;> rfl

theorem showsNothing_cons (kind : Kind) (f : Field) (v : Value) (fields : List (Field × Value)) :
    showsNothing kind ((f, v) :: fields) =
      ((kind.dropsEmpty f && isEmpty v || isNull v) && showsNothing kind fields) := rfl

theorem showsNothing_iff (kind : Kind) (fields : List (Field × Value)) :
    showsNothing kind fields = true ↔ ∀ f v, (f, v) ∈ fields →
      v = .null ∨ kind.dropsEmpty f = true ∧ isEmpty v = true := by
  induction fields with
  | nil => simp [showsNothing]
  | cons e fields ih =>
      rcases e with ⟨g, u⟩
      rw [showsNothing_cons, Bool.and_eq_true, Bool.or_eq_true, Bool.and_eq_true, isNull_iff, ih]
      constructor
      · rintro ⟨hfirst, hrest⟩ f v hmem
        rcases List.mem_cons.mp hmem with heq | hmem
        · cases heq
          exact hfirst.symm
        · exact hrest f v hmem
      · intro h
        exact ⟨(h g u List.mem_cons_self).symm,
          fun f v hmem => h f v (List.mem_cons_of_mem _ hmem)⟩

theorem isEmpty_record_eq_false {kind : Kind} {fields : List (Field × Value)} {f : Field}
    {v : Value} (hmem : (f, v) ∈ fields) (hshown : isEmpty v = false) :
    isEmpty (.record kind fields) = false := by
  rw [isEmpty, Bool.and_eq_false_iff]
  refine Or.inr ?_
  rw [← Bool.not_eq_true, showsNothing_iff]
  intro hnothing
  rcases hnothing f v hmem with rfl | ⟨_, hempty⟩
  · cases hshown
  · rw [hshown] at hempty
    cases hempty

mutual

theorem isEmpty_unmarked : ∀ v : Value, isEmpty (unmarked v) = isEmpty v
  | .record kind fields => by
      rw [unmarked, isEmpty, isEmpty, showsNothing_unmarkedFields kind fields]
  | .dict es => by
      rw [unmarked, isEmpty, isEmpty, unmarkedEntries_eq_map, List.isEmpty_map]
  | .list vs => by
      rw [unmarked, isEmpty, isEmpty, unmarkedItems_eq_map, List.isEmpty_map]
  | .null | .bool _ | .int _ | .float _ | .text _ | .broken _ | .bytes _ | .date _ | .moment _
  | .tuple _ | .set _ | .view _ | .anchored _ _ | .again _ => rfl

theorem showsNothing_unmarkedFields (kind : Kind) : ∀ fields : List (Field × Value),
    showsNothing kind (unmarkedFields kind fields) = showsNothing kind fields
  | [] => rfl
  | (f, v) :: fields => by
      rw [unmarkedFields, showsNothing_cons, showsNothing_cons,
        showsNothing_unmarkedFields kind fields]
      by_cases hkind : kind = .reference
      · subst hkind
        simp [Kind.dropsEmpty]
      · rw [if_neg (by simpa using hkind), isEmpty_unmarked v, isNull_unmarked]

end

theorem isEmptyMember_unmarked (v : Value) : isEmptyMember (unmarked v) = isEmptyMember v := by
  have hkind : (unmarked v).kind? = v.kind? := by cases v <;> rfl
  rw [isEmptyMember, isEmptyMember, hkind, isEmpty_unmarked]

theorem shown_list (vs : List Value) :
    shown (.list vs) = .list ((vs.filter fun v => !isEmptyMember v).map shown) := by
  rw [shown, unmarked_list, plain, plainItems_eq, List.filter_map, List.map_map]
  simp only [Function.comp_def, isEmptyMember_unmarked]
  rfl

theorem shown_dict (es : List (Value × Value)) :
    shown (.dict es) =
      .dict ((es.filter fun e => !isEmptyMember e.2).map fun e => (e.1, shown e.2)) := by
  rw [shown, unmarked, unmarkedEntries_eq_map, plain, plainEntries_eq, List.filter_map,
    List.map_map]
  simp only [Function.comp_def, isEmptyMember_unmarked]
  rfl

def shownEntries (kind : Kind) (fields : List (Field × Value)) : List (Value × Value) :=
  (arrange kind (plainFields kind (unmarkedFields kind fields))).map fun e => (.text e.1, e.2)

theorem shown_record (kind : Kind) (fields : List (Field × Value)) :
    shown (.record kind fields) = .dict (shownEntries kind fields) := by
  rw [shown, unmarked, plain]
  rfl

/-!
## Keys that are shown
-/

section Arrange

variable {kind : Kind} {fields : List (Field × Value)} {f : Field} {name : String} {w : Value}

/-- The keys of an object are those of the set fields and those of required ones, which show
nothing as their values when they are unset. -/
theorem mem_arrange_iff (hdiffer : (fields.map (·.1)).Nodup) :
    (name, w) ∈ arrange kind fields ↔ ∃ f ∈ kind.fields, kind.key f = name
      ∧ ((f, w) ∈ fields
        ∨ f ∉ fields.map (·.1) ∧ kind.dropsEmpty f = false ∧ w = .null) := by
  rw [arrange, List.mem_filterMap]
  constructor
  · rintro ⟨f, hf, h⟩
    cases hfind : fields.find? fun e => e.1 == f with
    | some e =>
        rw [hfind] at h
        cases h
        exact ⟨f, hf, rfl, Or.inl (Site.mem_of_find?_name (by rw [hfind]; rfl))⟩
    | none =>
        rw [hfind] at h
        have hno : f ∉ fields.map (·.1) := by
          rw [List.mem_map]
          rintro ⟨e, he, heq⟩
          exact List.find?_eq_none.mp hfind e he (beq_iff_eq.mpr heq)
        cases hdrops : kind.dropsEmpty f with
        | true => simp [hdrops] at h
        | false =>
            simp only [hdrops, Bool.false_eq_true, if_false, Option.some.injEq,
              Prod.mk.injEq] at h
            exact ⟨f, hf, h.1, Or.inr ⟨hno, hdrops, h.2.symm⟩⟩
  · rintro ⟨f, hf, rfl, hmem | ⟨hno, hdrops, rfl⟩⟩
    · rcases Option.map_eq_some_iff.mp ((Site.find?_name_eq_some_iff hdiffer).mpr hmem)
        with ⟨e, he, rfl⟩
      exact ⟨f, hf, by rw [he]⟩
    · have hfind : (fields.find? fun e => e.1 == f) = none := by
        rw [List.find?_eq_none]
        intro e he heq
        exact hno (List.mem_map.mpr ⟨e, he, beq_iff_eq.mp heq⟩)
      exact ⟨f, hf, by simp [hfind, hdrops]⟩

theorem names_unmarkedFields (kind : Kind) (fields : List (Field × Value)) :
    (unmarkedFields kind fields).map (·.1) = fields.map (·.1) := by
  induction fields with
  | nil => rfl
  | cons f fields ih => rw [unmarkedFields, List.map_cons, ih, List.map_cons]

theorem nodup_plainFields (hdiffer : (fields.map (·.1)).Nodup) :
    ((plainFields kind (unmarkedFields kind fields)).map (·.1)).Nodup := by
  rw [plainFields_eq, List.map_map]
  refine List.Sublist.nodup ?_ (names_unmarkedFields kind fields ▸ hdiffer)
  exact (List.filter_sublist).map _

theorem mem_shownEntries_iff :
    (.text name, w) ∈ shownEntries kind fields ↔
      (name, w) ∈ arrange kind (plainFields kind (unmarkedFields kind fields)) := by
  rw [shownEntries, List.mem_map]
  constructor
  · rintro ⟨e, he, heq⟩
    cases heq
    exact he
  · intro hmem
    exact ⟨_, hmem, rfl⟩

theorem optional_mem_shownEntries_iff (hdiffer : (fields.map (·.1)).Nodup)
    (hf : f ∈ kind.fields) (hdrops : kind.dropsEmpty f = true) :
    (.text (kind.key f), w) ∈ shownEntries kind fields ↔
      ∃ v, (f, v) ∈ fields ∧ isEmpty v = false ∧ w = shown v := by
  have hkind : kind ≠ .reference := by
    rintro rfl
    cases hdrops
  rw [mem_shownEntries_iff, mem_arrange_iff (nodup_plainFields hdiffer), plainFields_eq,
    unmarkedFields_eq_map hkind]
  simp only [List.mem_map, List.mem_filter]
  constructor
  · rintro ⟨g, hg, hkey, ⟨_, ⟨⟨⟨_, v⟩, hmem, rfl⟩, hshown⟩, heq⟩ | ⟨_, hrequired, _⟩⟩
    · cases heq
      cases kind.key_inj _ hg _ hf hkey
      refine ⟨v, hmem, ?_, rfl⟩
      simpa [hdrops, isEmpty_unmarked] using hshown
    · cases kind.key_inj _ hg _ hf hkey
      rw [hdrops] at hrequired
      cases hrequired
  · rintro ⟨v, hmem, hempty, rfl⟩
    refine ⟨f, hf, rfl, Or.inl ⟨_, ⟨⟨_, hmem, rfl⟩, ?_⟩, rfl⟩⟩
    simp [isEmpty_unmarked, hempty]

theorem required_mem_shownEntries (hdiffer : (fields.map (·.1)).Nodup)
    (hf : f ∈ kind.fields) (hrequired : kind.dropsEmpty f = false) :
    ∃ w, (.text (kind.key f), w) ∈ shownEntries kind fields := by
  simp only [mem_shownEntries_iff, mem_arrange_iff (nodup_plainFields hdiffer)]
  by_cases hset : f ∈ (plainFields kind (unmarkedFields kind fields)).map (·.1)
  · rcases List.mem_map.mp hset with ⟨⟨g, w⟩, hmem, rfl⟩
    exact ⟨w, g, hf, rfl, Or.inl hmem⟩
  · exact ⟨.null, f, hf, rfl, Or.inr ⟨hset, hrequired, rfl⟩⟩

theorem exists_key_of_mem_shownEntries (hdiffer : (fields.map (·.1)).Nodup)
    (hmem : (.text name, w) ∈ shownEntries kind fields) :
    ∃ f ∈ kind.fields, kind.key f = name := by
  rw [mem_shownEntries_iff, mem_arrange_iff (nodup_plainFields hdiffer)] at hmem
  rcases hmem with ⟨f, hf, hkey, _⟩
  exact ⟨f, hf, hkey⟩

def kindOf (es : List (Value × Value)) : Kind :=
  match PatternTag.ofEntries es with
  | .matching => .matching
  | .block => .block
  | .reference => .reference

theorem kindOf_shownEntries (hdiffer : (fields.map (·.1)).Nodup) (hkind : kind.isPattern = true) :
    kindOf (shownEntries kind fields) = kind := by
  have hkeys : (shownEntries kind fields).map (·.1) =
      ((arrange kind (plainFields kind (unmarkedFields kind fields))).map (·.1)).map .text := by
    rw [shownEntries, List.map_map, List.map_map]
    rfl
  have htag := PatternTag.ofEntries_of_texts hkeys
  generalize hnames :
    (arrange kind (plainFields kind (unmarkedFields kind fields))).map (·.1) = names at htag
  have hmem : ∀ name, name ∈ names ↔ ∃ w, (.text name, w) ∈ shownEntries kind fields := by
    intro name
    simp only [← hnames, mem_shownEntries_iff, List.mem_map, Prod.exists, exists_and_right,
      exists_eq_right]
  have hrequired : ∀ f ∈ kind.fields, kind.dropsEmpty f = false → kind.key f ∈ names :=
    fun f hf h => (hmem _).mpr (required_mem_shownEntries hdiffer hf h)
  have hforeign : ∀ name, (∀ f ∈ kind.fields, kind.key f ≠ name) → name ∉ names := by
    intro name hno hname
    rcases (hmem name).mp hname with ⟨w, hw⟩
    rcases exists_key_of_mem_shownEntries hdiffer hw with ⟨f, hf, hkey⟩
    exact hno f hf hkey
  rw [kindOf, htag]
  cases kind with
  | reference =>
      have hyes : "include" ∈ names := hrequired .target (by decide) rfl
      rw [if_pos hyes]
  | block =>
      have hyes : "begin" ∈ names := hrequired .opening (by decide) rfl
      rw [if_neg (hforeign "include" (by decide)), if_pos (Or.inl hyes)]
  | matching =>
      have hneither : ¬ ("begin" ∈ names ∨ "end" ∈ names) := by
        rintro (hname | hname)
        · exact hforeign "begin" (by decide) hname
        · exact hforeign "end" (by decide) hname
      rw [if_neg (hforeign "include" (by decide)), if_neg hneither]
  | _ => cases hkind

end Arrange

end Draft
end TextMate
