import TextMate.Proofs.Draft.Partial

/-!
# Slots for patterns

A slot is where a draft has patterns: a list or a tuple at the top level or inside
a block, and the repository.  In the drafts of this theory every field holds what
the check would leave in it, but the members of slots may be any values; those that
are no patterns are *strays*.  Strays are found by their places, and of all places
the first one counts.
-/

namespace TextMate
namespace Draft

def isPattern (v : Value) : Bool :=
  v.kind?.any Kind.isPattern

def slotItems : Value → List Value
  | .list vs | .tuple vs => vs
  | _ => []

/-- What a field may hold: nothing if that is its default, what fits, or a tuple of patterns. -/
inductive MayHold (kind : Kind) (f : Field) : Value → Prop where
  | absent : kind.default? f = some .null -> MayHold kind f .null
  | fits {v : Value} : (contentOf f).Fits v -> MayHold kind f v
  | tuple (vs : List Value) : f = .patterns -> MayHold kind f (.tuple vs)

/-- The fields of an object of which each is set once and holds what it may. -/
structure IsTyped (kind : Kind) (fields : List (Field × Value)) : Prop where
  names : (fields.map (·.1)).Nodup
  holds : ∀ f ∈ kind.fields, ∃ v, (Value.record kind fields).get? f = some v ∧ MayHold kind f v

def inner : Value → List Value
  | .record .block fields => ((Value.record .block fields).get? .patterns).elim [] slotItems
  | _ => []

def topLevel (g : Value) : List Value :=
  (g.get? .patterns).elim [] slotItems

def repositoryEntries (g : Value) : List (Value × Value) :=
  match g.get? .repository with
  | some (.dict es) => es
  | _ => []

/-- Patterns, apart from which members they have inside, and strays. -/
inductive IsLoose : Value → Prop where
  | stray {v : Value} : isPattern v = false -> IsLoose v
  | pattern {kind : Kind} {fields : List (Field × Value)} :
      kind.isPattern = true -> IsTyped kind fields ->
      (∀ v ∈ inner (.record kind fields), IsLoose v) -> IsLoose (.record kind fields)

/-- A grammar whose fields hold what they may, with any members in its slots. -/
structure IsLooseGrammar (g : Value) : Prop where
  typed : ∃ fields, g = .record .grammar fields ∧ IsTyped .grammar fields
  topLevel : ∀ v ∈ topLevel g, IsLoose v
  entries : ∀ e ∈ repositoryEntries g, IsLoose e.2

theorem inner_of_stray {v : Value} (h : isPattern v = false) : inner v = [] := by
  unfold inner
  split
  · cases h
  · rfl

/-!
## Drafts that are built from parts
-/

theorem mayHold_of_null_or_fits {kind : Kind} {f : Field} {v : Value}
    (hdefault : kind.default? f = some .null) (h : v = .null ∨ (contentOf f).Fits v) :
    MayHold kind f v := by
  rcases h with rfl | h
  · exact .absent hdefault
  · exact .fits h

theorem isLoose_reference (target : String) : IsLoose (reference target) := by
  refine .pattern rfl ⟨?_, ?_⟩ ?_
  · simp
  · exact List.forall_mem_singleton.mpr ⟨_, rfl, .fits ⟨target, rfl⟩⟩
  · intro v hv
    cases hv

theorem slotItems_ofList (vs : Option (List Value)) : slotItems (ofList vs) = vs.getD [] := by
  cases vs <;> rfl

theorem isLoose_block (rule : BlockRule Capture) {patterns : Option (List Value)}
    (h : ∀ v ∈ patterns.getD [], IsLoose v) :
    IsLoose (block
      ⟨rule.name, rule.opening, ofCheckedCaptures rule.openingCaptures, rule.closing,
        ofCheckedCaptures rule.closingCaptures, ofCheckedCaptures rule.captures,
        rule.contentName⟩ patterns) := by
  refine .pattern rfl ⟨?_, ?_⟩ ?_
  · simp
  · simp only [Kind.fields, List.forall_mem_cons]
    exact ⟨⟨_, rfl, mayHold_of_null_or_fits rfl (eq_null_or_fits_ofOption _)⟩,
      ⟨_, rfl, .fits ⟨_, rfl⟩⟩,
      ⟨_, rfl, mayHold_of_null_or_fits rfl (eq_null_or_fits_ofCaptures _)⟩,
      ⟨_, rfl, .fits ⟨_, rfl⟩⟩,
      ⟨_, rfl, mayHold_of_null_or_fits rfl (eq_null_or_fits_ofCaptures _)⟩,
      ⟨_, rfl, mayHold_of_null_or_fits rfl (eq_null_or_fits_ofCaptures _)⟩,
      ⟨_, rfl, mayHold_of_null_or_fits rfl (eq_null_or_fits_ofOption _)⟩,
      ⟨_, rfl, mayHold_of_null_or_fits rfl (eq_null_or_fits_ofList _)⟩,
      List.forall_mem_nil _⟩
  · intro v hv
    rw [← slotItems_ofList] at h
    exact h v hv

/-- Grammars with any values in their slots, as long as these are patterns whose fields hold what
they may, or no patterns at all. -/
theorem isLooseGrammar_grammar (h : Header) {patterns : Option (List Value)}
    {repository : Option (List (String × Value))}
    (hpatterns : ∀ v ∈ patterns.getD [], IsLoose v)
    (hrepository : ∀ e ∈ repository.getD [], IsLoose e.2) :
    IsLooseGrammar (grammar h patterns repository) where
  typed := by
    refine ⟨_, rfl, ?_, ?_⟩
    · simp
    · have htypes : ofList (h.fileTypes.map fun types => types.map .text) = .null
          ∨ Content.texts.Fits (ofList (h.fileTypes.map fun types => types.map .text)) := by
        cases h.fileTypes with
        | none => exact Or.inl rfl
        | some types => exact Or.inr ⟨types, rfl⟩
      simp only [Kind.fields, List.forall_mem_cons]
      refine ⟨⟨_, rfl, mayHold_of_null_or_fits rfl (eq_null_or_fits_ofOption _)⟩,
        ⟨_, rfl, mayHold_of_null_or_fits rfl (eq_null_or_fits_ofOption _)⟩,
        ⟨_, rfl, .fits ⟨_, rfl⟩⟩,
        ⟨_, rfl, mayHold_of_null_or_fits rfl htypes⟩,
        ⟨_, rfl, mayHold_of_null_or_fits rfl (eq_null_or_fits_ofOption _)⟩,
        ⟨_, rfl, mayHold_of_null_or_fits rfl (eq_null_or_fits_ofOption _)⟩,
        ⟨_, rfl, .fits ⟨_, rfl⟩⟩, ⟨_, rfl, .fits ⟨_, rfl⟩⟩, ⟨_, rfl, .fits ⟨_, rfl⟩⟩,
        ⟨_, rfl, mayHold_of_null_or_fits rfl (eq_null_or_fits_ofList _)⟩,
        ⟨_, rfl, mayHold_of_null_or_fits rfl ?_⟩, List.forall_mem_nil _⟩
      cases repository with
      | none => exact Or.inl rfl
      | some es => exact Or.inr ⟨es, rfl⟩
  topLevel := by
    intro v hv
    rw [← slotItems_ofList] at hpatterns
    exact hpatterns v hv
  entries := by
    intro e he
    cases repository with
    | none => cases he
    | some es =>
        rcases List.mem_map.mp he with ⟨entry, hentry, rfl⟩
        exact hrepository entry hentry

/-!
## Places of members
-/

def at? (v : Value) : List Nat → Option Value
  | [] => some v
  | i :: path => (inner v)[i]?.bind fun w => at? w path

def itemAt? (vs : List Value) : List Nat → Option Value
  | [] => none
  | i :: path => vs[i]?.bind fun v => at? v path

def placeAt? (g : Value) : Place → Option Value
  | .topLevel i path => itemAt? (topLevel g) (i :: path)
  | .entry i path => itemAt? ((repositoryEntries g).map (·.2)) (i :: path)

def placeText (g : Value) : Place → String
  | .topLevel i path => "patterns/" ++ toString i ++ Pattern.pathText path
  | .entry i path =>
      "repository/" ++ ((repositoryEntries g)[i]?.map fun e => e.1.plainForm).getD ""
        ++ Pattern.pathText path

/-- There are only patterns at the places that one looks at. -/
def HasNoStray {ι : Type} (look : ι → Option Value) : Prop :=
  ∀ i v, look i = some v → isPattern v = true

/-- The stray that comes before all others. -/
structure IsFirstStray {ι : Type} (Precedes : ι → ι → Prop) (look : ι → Option Value) (i : ι)
    (v : Value) : Prop where
  found : look i = some v
  stray : isPattern v = false
  first : ∀ j w, look j = some w → isPattern w = false → j = i ∨ Precedes i j

section Paths

variable {v w : Value} {vs : List Value} {path : List Nat}

theorem isFirstStray_self (h : isPattern v = false) : IsFirstStray (· < ·) (at? v) [] v where
  found := rfl
  stray := h
  first := by
    intro path w hat _
    cases path with
    | nil => exact Or.inl rfl
    | cons i path =>
        rw [at?, inner_of_stray h] at hat
        cases hat

theorem hasNoStray_of_inner (hv : isPattern v = true) (h : HasNoStray (itemAt? (inner v))) :
    HasNoStray (at? v) := by
  intro path w hat
  cases path with
  | nil =>
      cases hat
      exact hv
  | cons i path => exact h (i :: path) w hat

theorem isFirstStray_of_inner {i : Nat} (hv : isPattern v = true)
    (h : IsFirstStray (· < ·) (itemAt? (inner v)) (i :: path) w) :
    IsFirstStray (· < ·) (at? v) (i :: path) w where
  found := h.found
  stray := h.stray
  first := by
    intro other u hat hstray
    cases other with
    | nil =>
        cases hat
        rw [hv] at hstray
        cases hstray
    | cons j rest => exact h.first (j :: rest) u hat hstray

theorem hasNoStray_nil : HasNoStray (itemAt? []) := by
  intro path v hat
  cases path <;> cases hat

theorem hasNoStray_cons (hv : HasNoStray (at? v)) (hvs : HasNoStray (itemAt? vs)) :
    HasNoStray (itemAt? (v :: vs)) := by
  intro path w hat
  cases path with
  | nil => cases hat
  | cons i path =>
      cases i with
      | zero => exact hv path w hat
      | succ i => exact hvs (i :: path) w hat

theorem isFirstStray_head (h : IsFirstStray (· < ·) (at? v) path w) :
    IsFirstStray (· < ·) (itemAt? (v :: vs)) (0 :: path) w where
  found := h.found
  stray := h.stray
  first := by
    intro other u hat hstray
    cases other with
    | nil => cases hat
    | cons j rest =>
        cases j with
        | zero =>
            rcases h.first rest u hat hstray with rfl | hlt
            · exact Or.inl rfl
            · exact Or.inr (List.cons_lt_cons_iff.mpr (Or.inr ⟨rfl, hlt⟩))
        | succ j => exact Or.inr (List.cons_lt_cons_iff.mpr (Or.inl (Nat.succ_pos j)))

theorem isFirstStray_tail {i : Nat} (hv : HasNoStray (at? v))
    (h : IsFirstStray (· < ·) (itemAt? vs) (i :: path) w) :
    IsFirstStray (· < ·) (itemAt? (v :: vs)) ((i + 1) :: path) w where
  found := h.found
  stray := h.stray
  first := by
    intro other u hat hstray
    cases other with
    | nil => cases hat
    | cons j rest =>
        cases j with
        | zero =>
            rw [hv rest u hat] at hstray
            cases hstray
        | succ j =>
            rcases h.first (j :: rest) u hat hstray with heq | hlt
            · cases heq
              exact Or.inl rfl
            · rcases List.cons_lt_cons_iff.mp hlt with hij | ⟨rfl, hrest⟩
              · exact Or.inr (List.cons_lt_cons_iff.mpr (Or.inl (Nat.succ_lt_succ hij)))
              · exact Or.inr (List.cons_lt_cons_iff.mpr (Or.inr ⟨rfl, hrest⟩))

end Paths

section Places

variable {g v : Value} {i : Nat} {path : List Nat}

theorem hasNoStray_places (htop : HasNoStray (itemAt? (topLevel g)))
    (hentries : HasNoStray (itemAt? ((repositoryEntries g).map (·.2)))) :
    HasNoStray (placeAt? g) := by
  intro place w hat
  cases place with
  | topLevel i path => exact htop (i :: path) w hat
  | entry i path => exact hentries (i :: path) w hat

theorem isFirstStray_topLevel (h : IsFirstStray (· < ·) (itemAt? (topLevel g)) (i :: path) v) :
    IsFirstStray Place.Precedes (placeAt? g) (.topLevel i path) v where
  found := h.found
  stray := h.stray
  first := by
    intro place w hat hstray
    cases place with
    | topLevel j rest =>
        rcases h.first (j :: rest) w hat hstray with heq | hlt
        · cases heq
          exact Or.inl rfl
        · exact Or.inr hlt
    | entry j rest => exact Or.inr trivial

theorem isFirstStray_entry (htop : HasNoStray (itemAt? (topLevel g)))
    (h : IsFirstStray (· < ·) (itemAt? ((repositoryEntries g).map (·.2))) (i :: path) v) :
    IsFirstStray Place.Precedes (placeAt? g) (.entry i path) v where
  found := h.found
  stray := h.stray
  first := by
    intro place w hat hstray
    cases place with
    | topLevel j rest =>
        rw [htop (j :: rest) w hat] at hstray
        cases hstray
    | entry j rest =>
        rcases h.first (j :: rest) w hat hstray with heq | hlt
        · cases heq
          exact Or.inl rfl
        · exact Or.inr hlt

end Places

end Draft
end TextMate
