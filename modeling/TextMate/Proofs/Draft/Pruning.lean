import TextMate.Proofs.Draft.Shown

/-!
# Blanks in documents of drafts

A document leaves out optional fields that are empty, and collections of patterns
lose members that would show nothing.  Whether a field is empty is asked before it
loses members.  So a list of patterns or a repository is shown although nothing is
left of it if all its members would show nothing.  The main result says that
this is how optional fields that are shown come to be blank, and the only way.
-/

namespace TextMate
namespace Draft

/-!
## What is blank and what is hollow
-/

/-- Nothing, and what is empty in a document. -/
def IsBlank : Value → Prop
  | .null => True
  | .text s => s = ""
  | .list vs => vs = []
  | .dict es => es = []
  | _ => False

/-- Whether a pattern has nothing to show: each of its fields holds nothing, or is optional and
blank. -/
def IsUnpopulated : Value → Prop
  | .record kind fields =>
      kind.isPattern = true
        ∧ ∀ f v, (f, v) ∈ fields → v = .null ∨ kind.dropsEmpty f = true ∧ IsBlank v
  | _ => False

def held : Value → List Value
  | .list vs => vs
  | .dict es => es.map (·.2)
  | _ => []

/-- Whether a collection has members, and all of them are patterns with nothing to show. -/
def IsHollow (v : Value) : Prop :=
  held v ≠ [] ∧ ∀ w ∈ held v, IsUnpopulated w

def HoldsPatterns (f : Field) : Prop :=
  f = .patterns ∨ f = .repository

instance (f : Field) : Decidable (HoldsPatterns f) :=
  inferInstanceAs (Decidable (_ ∨ _))

/-- A draft and the patterns at any depth of it. -/
inductive Part (g : Value) : Value → Prop where
  | whole : Part g g
  | inner {kind : Kind} {fields : List (Field × Value)} {f : Field} {v w : Value} :
      Part g (.record kind fields) -> HoldsPatterns f -> (f, v) ∈ fields -> w ∈ held v ->
      Part g w

/-- Whether some field in a draft, at any depth, holds a hollow collection. -/
def HasHollow (g : Value) : Prop :=
  ∃ kind fields f v, Part g (.record kind fields) ∧ (f, v) ∈ fields ∧ IsHollow v

/-- The mappings of a grammar and of patterns at any depth of a document, with their kinds.
Those of captures have no optional keys. -/
inductive Mapping (doc : Value) : Kind → List (Value × Value) → Prop where
  | whole {es : List (Value × Value)} : doc = .dict es -> Mapping doc .grammar es
  | inner {kind : Kind} {es ds : List (Value × Value)} {f : Field} {m : Value} :
      Mapping doc kind es -> f ∈ kind.fields -> HoldsPatterns f -> (.text (kind.key f), m) ∈ es ->
      .dict ds ∈ held m -> Mapping doc (kindOf ds) ds

/-- Whether some mapping of a document has a value under the key of an optional field. -/
def ShowsOptional (doc : Value) (f : Field) (w : Value) : Prop :=
  ∃ kind es, Mapping doc kind es ∧ f ∈ kind.fields ∧ kind.dropsEmpty f = true
    ∧ (.text (kind.key f), w) ∈ es

/-!
## Fields that are shown and blank
-/

theorem isEmpty_iff_isBlank {content : Content} {v : Value} (h : v = .null ∨ content.Fits v) :
    isEmpty v = true ↔ IsBlank v := by
  rcases h with rfl | h
  · exact iff_of_true rfl trivial
  cases content with
  | text =>
      rcases h with ⟨s, rfl⟩
      exact String.isEmpty_iff
  | texts | captures | patterns | entries =>
      rcases h with ⟨_, rfl⟩
      exact List.isEmpty_iff
  | count =>
      rcases h with ⟨n, rfl⟩
      exact iff_of_false (by simp [isEmpty]) id

theorem IsPartial.isEmptyMember_iff {v : Value} (h : IsPartial v) :
    isEmptyMember v = true ↔ IsUnpopulated v := by
  cases h with
  | reference target =>
      refine iff_of_false (by simp [isEmptyMember, Draft.reference, Value.kind?, isEmpty,
        showsNothing_cons, Kind.dropsEmpty, isNull]) ?_
      rintro ⟨_, hfields⟩
      rcases hfields .target (.text target) List.mem_cons_self with hnull | ⟨hdrops, _⟩
      · cases hnull
      · cases hdrops
  | @object kind fields hkind hfilled hinner =>
      have hpattern : kind.isPattern = true := by
        rcases hkind with rfl | rfl <;> rfl
      rw [isEmptyMember, isEmpty, hpattern, Bool.true_and]
      simp only [Value.kind?, Option.isSome_some, Bool.true_and, showsNothing_iff, IsUnpopulated,
        hpattern, true_and]
      refine forall_congr' fun f => forall_congr' fun v => imp_congr_right fun hmem => ?_
      rw [isEmpty_iff_isBlank (hfilled.null_or_fits hmem)]

def IsCollection (v : Value) : Prop :=
  (∃ vs, v = .list vs) ∨ ∃ es, v = .dict es

theorem IsCollection.held_shown {v : Value} (h : IsCollection v) :
    held (shown v) = ((held v).filter fun w => !isEmptyMember w).map shown := by
  rcases h with ⟨vs, rfl⟩ | ⟨es, rfl⟩
  · rw [shown_list]
    rfl
  · rw [shown_dict, held, held, List.map_map, List.filter_map, List.map_map]
    rfl

theorem IsCollection.isBlank_shown_iff {v : Value} (h : IsCollection v)
    (hmembers : ∀ w ∈ held v, isEmptyMember w = true ↔ IsUnpopulated w)
    (hshown : isEmpty v = false) : IsBlank (shown v) ↔ IsHollow v := by
  have hblank : IsBlank (shown v) ↔ held (shown v) = [] := by
    rcases h with ⟨vs, rfl⟩ | ⟨es, rfl⟩
    · rw [shown_list]
      rfl
    · rw [shown_dict]
      exact List.map_eq_nil_iff.symm
  have hne : held v ≠ [] := by
    rcases h with ⟨vs, rfl⟩ | ⟨es, rfl⟩
    · exact List.isEmpty_eq_false_iff.mp hshown
    · exact List.map_eq_nil_iff.not.mpr (List.isEmpty_eq_false_iff.mp hshown)
  rw [hblank, h.held_shown, List.map_eq_nil_iff, List.filter_eq_nil_iff, IsHollow]
  simp only [Bool.not_eq_true', Bool.not_eq_false, hne, ne_eq, not_false_eq_true, true_and]
  exact forall₂_congr hmembers

/-- An object whose fields fit and whose inner patterns and entries are partial patterns. -/
structure IsObject (kind : Kind) (fields : List (Field × Value)) : Prop where
  filled : IsFilled kind fields
  inner : ∀ f v, HoldsPatterns f → (f, v) ∈ fields → ∀ w ∈ held v, IsPartial w

/-- Only lists of patterns and repositories hold patterns, so that elsewhere no member is left
out. -/
theorem Content.Fits.plain_member {content : Content} {v w : Value} (h : content.Fits v)
    (hpatterns : content ≠ .patterns) (hentries : content ≠ .entries) (hw : w ∈ held v) :
    isEmptyMember w = false ∧ ¬ IsUnpopulated w := by
  cases content with
  | text | count =>
      rcases h with ⟨_, rfl⟩
      cases hw
  | texts =>
      rcases h with ⟨types, rfl⟩
      rcases List.mem_map.mp hw with ⟨s, _, rfl⟩
      exact ⟨rfl, id⟩
  | captures =>
      rcases h with ⟨cs, rfl⟩
      rw [ofNamed, held, List.map_map, List.map_map] at hw
      rcases List.mem_map.mp hw with ⟨c, _, rfl⟩
      exact ⟨rfl, fun hc => Bool.false_ne_true hc.1⟩
  | patterns => exact absurd rfl hpatterns
  | entries => exact absurd rfl hentries

theorem IsFilled.plain_member {kind : Kind} {fields : List (Field × Value)}
    (h : IsFilled kind fields) {f : Field} {v w : Value} (hmem : (f, v) ∈ fields)
    (hf : ¬ HoldsPatterns f) (hw : w ∈ held v) : isEmptyMember w = false ∧ ¬ IsUnpopulated w := by
  rcases h.null_or_fits hmem with rfl | hfits
  · cases hw
  · exact hfits.plain_member (fun hcontent => hf (Or.inl (contentOf_eq_patterns hcontent)))
      (fun hcontent => hf (Or.inr (contentOf_eq_entries hcontent))) hw

theorem IsObject.isBlank_shown_iff {kind : Kind} {fields : List (Field × Value)}
    (h : IsObject kind fields) {f : Field} {v : Value} (hmem : (f, v) ∈ fields)
    (hshown : isEmpty v = false) : IsBlank (shown v) ↔ IsHollow v := by
  have hmembers : ∀ w ∈ held v, (isEmptyMember w = true ↔ IsUnpopulated w) := by
    intro w hw
    by_cases hf : HoldsPatterns f
    · exact (h.inner f v hf hmem w hw).isEmptyMember_iff
    · rcases h.filled.plain_member hmem hf hw with ⟨hshows, hpopulated⟩
      exact iff_of_false (Bool.eq_false_iff.mp hshows) hpopulated
  rcases h.filled.null_or_fits hmem with rfl | hfits
  · cases hshown
  generalize contentOf f = content at hfits
  cases content with
  | text =>
      rcases hfits with ⟨s, rfl⟩
      refine iff_of_false ?_ fun hhollow => hhollow.1 rfl
      rintro rfl
      cases hshown
  | count =>
      rcases hfits with ⟨n, rfl⟩
      exact iff_of_false id fun hhollow => hhollow.1 rfl
  | texts | patterns =>
      rcases hfits with ⟨_, rfl⟩
      exact IsCollection.isBlank_shown_iff (Or.inl ⟨_, rfl⟩) hmembers hshown
  | captures | entries =>
      rcases hfits with ⟨_, rfl⟩
      exact IsCollection.isBlank_shown_iff (Or.inr ⟨_, rfl⟩) hmembers hshown

theorem isEmpty_eq_false_of_mem_held {v w : Value} (h : w ∈ held v) : isEmpty v = false := by
  cases v with
  | list vs => exact List.isEmpty_eq_false_iff.mpr (List.ne_nil_of_mem h)
  | dict es =>
      exact List.isEmpty_eq_false_iff.mpr (List.map_eq_nil_iff.not.mp (List.ne_nil_of_mem h))
  | _ => cases h

theorem IsFilled.holdsPatterns_of_isHollow {kind : Kind} {fields : List (Field × Value)}
    (h : IsFilled kind fields) {f : Field} {v : Value} (hmem : (f, v) ∈ fields)
    (hhollow : IsHollow v) : HoldsPatterns f := by
  by_contra hf
  rcases List.exists_mem_of_ne_nil _ hhollow.1 with ⟨w, hw⟩
  exact (h.plain_member hmem hf hw).2 (hhollow.2 w hw)

theorem IsFilled.isCollection {kind : Kind} {fields : List (Field × Value)}
    (h : IsFilled kind fields) {f : Field} {v : Value} (hf : HoldsPatterns f)
    (hmem : (f, v) ∈ fields) : v = .null ∨ IsCollection v := by
  rcases h.null_or_fits hmem with rfl | hfits
  · exact Or.inl rfl
  rcases hf with rfl | rfl
  · exact Or.inr (Or.inl hfits)
  · rcases hfits with ⟨es, rfl⟩
    exact Or.inr (Or.inr ⟨_, rfl⟩)

theorem dropsEmpty_of_holdsPatterns (kind : Kind) : ∀ f ∈ kind.fields, HoldsPatterns f →
    kind.dropsEmpty f = true := by
  cases kind <;> decide

/-!
## Parts of a draft and mappings of its document
-/

theorem IsPartial.exists_record {v : Value} (h : IsPartial v) :
    ∃ kind fields, v = .record kind fields ∧ kind.isPattern = true ∧ IsObject kind fields := by
  cases h with
  | reference target =>
      have hfilled := isFilled_reference target
      refine ⟨.reference, _, rfl, rfl, hfilled, ?_⟩
      rintro f v (rfl | rfl) hmem <;> exact absurd (hfilled.mem_fields hmem) (by decide)
  | @object kind fields hkind hfilled hinner =>
      refine ⟨kind, fields, rfl, ?_, hfilled, ?_⟩
      · rcases hkind with rfl | rfl <;> rfl
      rintro f v (rfl | rfl) hmem w hw
      · rcases hfilled.null_or_fits hmem with rfl | ⟨vs, rfl⟩
        · cases hw
        · exact hinner vs hmem w hw
      · have hknown := hfilled.mem_fields hmem
        rcases hkind with rfl | rfl <;> exact absurd hknown (by decide)

theorem IsPartial.shown_eq {v : Value} (h : IsPartial v) :
    ∃ kind fields, v = .record kind fields ∧ shown v = .dict (shownEntries kind fields)
      ∧ kindOf (shownEntries kind fields) = kind := by
  rcases h.exists_record with ⟨kind, fields, rfl, hpattern, hobject⟩
  exact ⟨kind, fields, rfl, shown_record kind fields,
    kindOf_shownEntries hobject.filled.names hpattern⟩

section Parts

variable {fields : List (Field × Value)} (hg : IsObject .grammar fields)

include hg

theorem Part.isObject {v : Value} (h : Part (.record .grammar fields) v) :
    ∃ kind fs, v = .record kind fs ∧ IsObject kind fs := by
  induction h with
  | whole => exact ⟨.grammar, fields, rfl, hg⟩
  | inner _ hf hmem hw ih =>
      rcases ih with ⟨kind, fs, heq, hobject⟩
      cases heq
      rcases (hobject.inner _ _ hf hmem _ hw).exists_record with ⟨kind, fs, heq, _, hobject⟩
      exact ⟨kind, fs, heq, hobject⟩

theorem Part.isObject_record {kind : Kind} {fs : List (Field × Value)}
    (h : Part (.record .grammar fields) (.record kind fs)) : IsObject kind fs := by
  rcases h.isObject hg with ⟨kind, fs, heq, hobject⟩
  cases heq
  exact hobject

theorem Mapping.exists_part {kind : Kind} {es : List (Value × Value)}
    (h : Mapping (shown (.record .grammar fields)) kind es) :
    ∃ fs, Part (.record .grammar fields) (.record kind fs) ∧ es = shownEntries kind fs := by
  induction h with
  | whole heq =>
      rw [shown_record] at heq
      cases heq
      exact ⟨fields, .whole, rfl⟩
  | @inner kind es ds f m _ hf hholds hmem hds ih =>
      rcases ih with ⟨fs, hpart, rfl⟩
      have hobject := hpart.isObject_record hg
      rw [optional_mem_shownEntries_iff hobject.filled.names hf
        (dropsEmpty_of_holdsPatterns kind f hf hholds)] at hmem
      rcases hmem with ⟨v, hv, hempty, rfl⟩
      rcases hobject.filled.isCollection hholds hv with rfl | hcollection
      · cases hempty
      rw [hcollection.held_shown] at hds
      rcases List.mem_map.mp hds with ⟨w, hw, heq⟩
      have hheld := (List.mem_filter.mp hw).1
      rcases (hobject.inner f v hholds hv w hheld).shown_eq with ⟨kind, fs, rfl, hshown, hkind⟩
      rw [hshown] at heq
      cases heq
      rw [hkind]
      exact ⟨fs, .inner hpart hholds hv hheld, rfl⟩

/-- Every part of the draft that is not empty is shown as a mapping of the document. -/
theorem Part.mapping {v : Value} (h : Part (.record .grammar fields) v)
    (hshown : isEmpty v = false) :
    ∃ kind fs, v = .record kind fs
      ∧ Mapping (shown (.record .grammar fields)) kind (shownEntries kind fs) := by
  induction h with
  | whole => exact ⟨.grammar, fields, rfl, .whole (shown_record _ _)⟩
  | @inner kind fs f v w hpart hholds hv hw ih =>
      have hobject := hpart.isObject_record hg
      -- what is around a member is not empty either, so that it is shown
      have hempty := isEmpty_eq_false_of_mem_held hw
      rcases ih (isEmpty_record_eq_false hv hempty) with ⟨_, _, heq, hmapping⟩
      cases heq
      have hf := hobject.filled.mem_fields hv
      have hmem := (optional_mem_shownEntries_iff hobject.filled.names hf
        (dropsEmpty_of_holdsPatterns kind f hf hholds)).mpr ⟨v, hv, hempty, rfl⟩
      have hheld : shown w ∈ held (shown v) := by
        rcases hobject.filled.isCollection hholds hv with rfl | hcollection
        · cases hw
        rw [hcollection.held_shown]
        refine List.mem_map.mpr ⟨w, List.mem_filter.mpr ⟨hw, ?_⟩, rfl⟩
        rw [isEmptyMember, hshown, Bool.and_false]
        rfl
      rcases (hobject.inner f v hholds hv w hw).shown_eq with ⟨kind', fs', rfl, hdict, hkind⟩
      rw [hdict] at hheld
      refine ⟨kind', fs', rfl, ?_⟩
      have hinner := Mapping.inner hmapping hf hholds hmem hheld
      rwa [hkind] at hinner

end Parts

/-!
## Grammars with partial patterns
-/

theorem exists_isObject_grammar {h : Header} {patterns : Option (List Value)}
    {repository : Option (List (String × Value))}
    (hpatterns : ∀ v ∈ patterns.getD [], IsPartial v)
    (hrepository : ∀ e ∈ repository.getD [], IsPartial e.2) :
    ∃ fields, grammar h patterns repository = .record .grammar fields
      ∧ IsObject .grammar fields := by
  have hname : ∀ s, ofOption s = .null ∨ Content.text.Fits (ofOption s) :=
    eq_null_or_fits_ofOption
  have htext : ∀ s, Value.text s = .null ∨ Content.text.Fits (.text s) :=
    fun s => Or.inr ⟨s, rfl⟩
  have htypes : ofList (h.fileTypes.map fun types => types.map Value.text) = .null
      ∨ Content.texts.Fits (ofList (h.fileTypes.map fun types => types.map Value.text)) := by
    cases h.fileTypes with
    | none => exact Or.inl rfl
    | some types => exact Or.inr ⟨types, rfl⟩
  refine ⟨_, rfl, ⟨by simp, by simp [Kind.fields], ?_⟩, ?_⟩
  · simp only [List.forall_mem_cons]
    refine ⟨hname _, hname _, htext _, htypes, hname _, hname _, htext _, htext _, htext _,
      eq_null_or_fits_ofList _, ?_, List.forall_mem_nil _⟩
    cases repository with
    | none => exact Or.inl rfl
    | some es => exact Or.inr ⟨es, rfl⟩
  · rintro f v (rfl | rfl) hmem w hw
    · have hv : v = ofList patterns := by simpa using hmem
      subst hv
      cases patterns with
      | none => cases hw
      | some vs => exact hpatterns w hw
    · cases repository with
      | none =>
          have hv : v = .null := by simpa using hmem
          subst hv
          cases hw
      | some es =>
          have hv : v = ofNamed es := by simpa using hmem
          subst hv
          rw [ofNamed, held, List.map_map] at hw
          rcases List.mem_map.mp hw with ⟨e, he, rfl⟩
          exact hrepository e he

/-- An optional field is shown blank exactly if the draft has a hollow list of patterns or a
hollow repository at some depth; what is shown then is an empty list of patterns or an empty
repository, and never nothing or an empty text. -/
theorem blank_optional_shown_iff_hollow {h : Header} {patterns : Option (List Value)}
    {repository : Option (List (String × Value))} {doc : Value}
    (hpatterns : ∀ v ∈ patterns.getD [], IsPartial v)
    (hrepository : ∀ e ∈ repository.getD [], IsPartial e.2)
    (hdoc : document (grammar h patterns repository) = .ok doc) :
    ((∃ f w, ShowsOptional doc f w ∧ IsBlank w) ↔ HasHollow (grammar h patterns repository))
      ∧ ∀ f w, ShowsOptional doc f w → IsBlank w →
          f = .patterns ∧ w = .list [] ∨ f = .repository ∧ w = .dict [] := by
  rcases exists_isObject_grammar (h := h) hpatterns hrepository with ⟨fields, hgrammar, hobject⟩
  have hshown : doc = shown (.record .grammar fields) := by
    rw [← hgrammar]
    exact document_eq_plain hpatterns hrepository hdoc
  subst hshown
  rw [hgrammar]
  -- what is shown under the key of an optional field is what is left of some field of a part
  have hsource : ∀ f w, ShowsOptional (shown (.record .grammar fields)) f w →
      ∃ kind fs v, Part (.record .grammar fields) (.record kind fs) ∧ IsObject kind fs
        ∧ (f, v) ∈ fs ∧ isEmpty v = false ∧ w = shown v := by
    rintro f w ⟨kind, es, hmapping, hf, hdrops, hmem⟩
    rcases hmapping.exists_part hobject with ⟨fs, hpart, rfl⟩
    have hfs := hpart.isObject_record hobject
    rw [optional_mem_shownEntries_iff hfs.filled.names hf hdrops] at hmem
    rcases hmem with ⟨v, hv, hempty, rfl⟩
    exact ⟨kind, fs, v, hpart, hfs, hv, hempty, rfl⟩
  refine ⟨⟨?_, ?_⟩, ?_⟩
  · rintro ⟨f, w, hshows, hblank⟩
    rcases hsource f w hshows with ⟨kind, fs, v, hpart, hfs, hv, hempty, rfl⟩
    exact ⟨kind, fs, f, v, hpart, hv, (hfs.isBlank_shown_iff hv hempty).mp hblank⟩
  · rintro ⟨kind, fs, f, v, hpart, hv, hhollow⟩
    have hfs := hpart.isObject_record hobject
    rcases List.exists_mem_of_ne_nil _ hhollow.1 with ⟨w, hw⟩
    have hempty := isEmpty_eq_false_of_mem_held hw
    have hf := hfs.filled.mem_fields hv
    have hdrops := dropsEmpty_of_holdsPatterns kind f hf
      (hfs.filled.holdsPatterns_of_isHollow hv hhollow)
    rcases hpart.mapping hobject (isEmpty_record_eq_false hv hempty) with ⟨_, _, heq, hmapping⟩
    cases heq
    refine ⟨f, shown v, ⟨kind, _, hmapping, hf, hdrops, ?_⟩,
      (hfs.isBlank_shown_iff hv hempty).mpr hhollow⟩
    exact (optional_mem_shownEntries_iff hfs.filled.names hf hdrops).mpr ⟨v, hv, hempty, rfl⟩
  · intro f w hshows hblank
    rcases hsource f w hshows with ⟨kind, fs, v, hpart, hfs, hv, hempty, rfl⟩
    have hhollow := (hfs.isBlank_shown_iff hv hempty).mp hblank
    rcases hfs.filled.null_or_fits hv with rfl | hfits
    · cases hempty
    rcases hfs.filled.holdsPatterns_of_isHollow hv hhollow with rfl | rfl
    · rcases hfits with ⟨vs, rfl⟩
      rw [shown_list] at hblank ⊢
      exact Or.inl ⟨rfl, congrArg Value.list hblank⟩
    · rcases hfits with ⟨es, rfl⟩
      rw [ofNamed, shown_dict] at hblank ⊢
      exact Or.inr ⟨rfl, congrArg Value.dict hblank⟩

def hollow : Value :=
  grammar ⟨none, none, "source.x", none, none, none, "", "", "u"⟩
    (some [Value.fill .matching [("match", .null)]])
    (some [("self", ofPattern (.reference "$self"))])

def hollowDocument : Value :=
  ofNamed [("scopeName", .text "source.x"), ("firstLineMatch", .text ""),
    ("injectionSelector", .text ""), ("uuid", .text "u"), ("patterns", .list []),
    ("repository", ofNamed [("self", ofNamed [("include", .text "$self")])])]

/-- An optional field is shown blank in the document of such a grammar. -/
theorem hollow_shows_blank :
    document hollow = .ok hollowDocument
      ∧ ∃ f w, ShowsOptional hollowDocument f w ∧ IsBlank w := by
  have hpattern : IsPartial (Value.fill .matching [("match", .null)]) := by
    refine isPartial_fill (Or.inl rfl) ?_ (by simp)
    simp
  have hpatterns : ∀ v ∈ (some [Value.fill .matching [("match", .null)]]).getD [], IsPartial v :=
    List.forall_mem_singleton.mpr hpattern
  have hrepository : ∀ e ∈ (some [("self", ofPattern (.reference "$self"))]).getD [],
      IsPartial e.2 :=
    List.forall_mem_singleton.mpr (isPartial_ofPattern _)
  have hdoc : document hollow = .ok hollowDocument := rfl
  have hhollow : HasHollow hollow := by
    refine ⟨.grammar, _, .patterns, .list [Value.fill .matching [("match", .null)]], .whole, ?_,
      ?_⟩
    · simp [ofList]
    · refine ⟨List.cons_ne_nil _ _, List.forall_mem_singleton.mpr ⟨rfl, fun f v hmem => ?_⟩⟩
      have hnull : ∀ e ∈ [(Field.name, Value.null), (.regex, .null), (.captures, .null)],
          e.2 = .null := by simp
      exact Or.inl (hnull (f, v) hmem)
  exact ⟨hdoc, (blank_optional_shown_iff_hollow hpatterns hrepository hdoc).1.mpr hhollow⟩

end Draft
end TextMate
