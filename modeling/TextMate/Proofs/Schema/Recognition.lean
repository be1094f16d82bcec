import Mathlib.Data.List.Nodup
import TextMate.Proofs.Schema.DocumentGrammar
import TextMate.Proofs.Schema.Members

/-!
# Checks recognize the grammar of documents

A check recognizes a property if it accepts exactly the JSON values that have the
property, wherever they stand.  The checks of texts, lists, mappings and objects
recognize what their parts are said to hold.
-/

namespace TextMate
namespace Schema

variable {α β κ π γ : Type}

/-!
## Accepting verdicts
-/

namespace Verdict

def IsAccepted (v : Verdict α) : Prop :=
  ∃ a, v = .accepted a

@[simp] theorem isAccepted_accepted (a : α) : (accepted a).IsAccepted := ⟨a, rfl⟩

@[simp] theorem not_isAccepted_rejected (ps : List Problem) :
    ¬ (rejected ps : Verdict α).IsAccepted := by
  rintro ⟨a, h⟩
  cases h

@[simp] theorem not_isAccepted_reject (s : Site) (mismatch : Mismatch) :
    ¬ (s.reject mismatch : Verdict α).IsAccepted :=
  not_isAccepted_rejected _

@[simp] theorem isAccepted_map {f : α → β} {v : Verdict α} :
    (f <$> v).IsAccepted ↔ v.IsAccepted := by
  constructor
  · rintro ⟨b, h⟩
    rcases map_eq_accepted_iff.mp h with ⟨a, ha, _⟩
    exact ⟨a, ha⟩
  · rintro ⟨a, rfl⟩
    exact ⟨f a, rfl⟩

@[simp] theorem isAccepted_seq {v : Verdict (α → β)} {w : Verdict α} :
    (v <*> w).IsAccepted ↔ v.IsAccepted ∧ w.IsAccepted := by
  constructor
  · rintro ⟨b, h⟩
    rcases seq_eq_accepted_iff.mp h with ⟨f, a, hf, ha, _⟩
    exact ⟨⟨f, hf⟩, ⟨a, ha⟩⟩
  · rintro ⟨⟨f, rfl⟩, ⟨a, rfl⟩⟩
    exact ⟨f a, rfl⟩

@[simp] theorem isAccepted_seqLeft {v : Verdict α} {w : Verdict β} :
    (v <* w).IsAccepted ↔ v.IsAccepted ∧ w.IsAccepted := by
  constructor
  · rintro ⟨a, h⟩
    rcases seqLeft_eq_accepted_iff.mp h with ⟨ha, hb⟩
    exact ⟨⟨a, ha⟩, hb⟩
  · rintro ⟨⟨a, rfl⟩, ⟨b, rfl⟩⟩
    exact ⟨a, rfl⟩

@[simp] theorem isAccepted_all {vs : List (Verdict α)} :
    (all vs).IsAccepted ↔ ∀ v ∈ vs, v.IsAccepted := by
  induction vs with
  | nil => simp [all]
  | cons v vs ih => rw [all, isAccepted_seq, isAccepted_map, ih, List.forall_mem_cons]

theorem isAccepted_iff_toExcept {v : Verdict α} :
    v.IsAccepted ↔ ∃ a, v.toExcept = .ok a := by
  cases v with
  | accepted a => exact ⟨fun _ => ⟨a, rfl⟩, fun _ => ⟨a, rfl⟩⟩
  | rejected ps =>
      constructor
      · intro h
        exact absurd h (not_isAccepted_rejected ps)
      · rintro ⟨a, h⟩
        cases h

end Verdict

/-!
## Values
-/

/-- The check accepts exactly the JSON values that have the property. -/
def Recognizes (check : Site → Verdict α) (P : Value → Prop) : Prop :=
  ∀ s : Site, s.value.IsJson → s.number = none → ((check s).IsAccepted ↔ P s.value)

theorem resolve_of_isJson {v : Value} (h : v.IsJson) (place : List Step) (number : Option Nat)
    (anchors : List (Nat × Value)) :
    (Site.mk v place number anchors).resolve = ⟨v, place, none, anchors⟩ := by
  cases h <;> rfl

theorem Recognizes.child {check : Site → Verdict α} {P : Value → Prop}
    (h : Recognizes check P) {v : Value} (hv : v.IsJson) (s : Site) (step : Step) :
    (check (s.child step v)).IsAccepted ↔ P v := by
  rw [Site.child, resolve_of_isJson hv]
  exact h _ hv rfl

theorem recognizes_text : Recognizes Site.text Value.IsText := by
  intro s hs _
  unfold Site.text
  generalize s.value = v at hs
  cases hs <;> simp [Value.IsText]

theorem recognizes_optional {check : Site → Verdict α} {P : Value → Prop}
    (h : Recognizes check P) : Recognizes (Site.optional check) (OrNull P) := by
  intro s hs hnumber
  unfold Site.optional
  split
  · rename_i hnull
    simp [OrNull, hnull]
  · rename_i hnull
    rw [Verdict.isAccepted_map, h s hs hnumber]
    constructor
    · exact Or.inr
    · rintro (heq | hp)
      · exact absurd heq hnull
      · exact hp

theorem recognizes_list {check : Site → Verdict α} {P : Value → Prop}
    (h : Recognizes check P) : Recognizes (Site.list check) (IsListOf P) := by
  intro s hs _
  unfold Site.list Site.items
  generalize s.value = v at hs
  cases hs with
  | @list items hitems =>
      have hall : (∀ w ∈ (items.mapIdx fun i v => s.child (.index i) v).map check,
          w.IsAccepted) ↔ ∀ item ∈ items, P item := by
        rw [List.forall_mem_map]
        constructor
        · intro hsites item hitem
          rcases List.getElem_of_mem hitem with ⟨i, hi, rfl⟩
          have hmem : s.child (.index i) items[i] ∈ items.mapIdx fun i v => s.child (.index i) v :=
            List.mem_mapIdx.mpr ⟨i, hi, rfl⟩
          exact (h.child (hitems _ hitem) s _).mp (hsites _ hmem)
        · intro hvalues site hsite
          rcases List.mem_mapIdx.mp hsite with ⟨i, hi, rfl⟩
          have hmem := List.getElem_mem hi
          exact (h.child (hitems _ hmem) s _).mpr (hvalues _ hmem)
      rw [Verdict.isAccepted_all, hall]
      simp [IsListOf]
  | _ => simp [IsListOf]

theorem recognizes_mapping {check : Site → Verdict α} {P : Value → Prop}
    (h : Recognizes check P) : Recognizes (Site.mapping check) (IsMappingTo P) := by
  intro s hs _
  unfold Site.mapping
  generalize hvalue : s.value = v at hs
  cases hs with
  | @dict es hkeys hnames hes =>
      have hkey : ∀ e ∈ es, ∀ place,
          (Site.text { s with value := e.1, place := place }).IsAccepted := by
        intro e he place
        have hkey := hkeys e he
        unfold Site.text
        generalize e.1 = key at hkey
        cases key <;> simp [Value.IsText] at *
      have hall : (∀ w ∈ es.map fun e => Prod.mk <$> Site.text { s with
            value := e.1, place := s.place ++ [Step.ofKey e.1, .key "[key]"] }
          <*> check (s.child (Step.ofKey e.1) e.2), w.IsAccepted) ↔ ∀ e ∈ es, P e.2 := by
        rw [List.forall_mem_map]
        apply forall₂_congr
        intro e he
        rw [Verdict.isAccepted_seq, Verdict.isAccepted_map, h.child (hes e he)]
        exact and_iff_right (hkey e he _)
      simp only [Site.entries?, Verdict.isAccepted_map, Verdict.isAccepted_all]
      rw [hall]
      simp [IsMappingTo]
  | _ => simp [Site.entries?, IsMappingTo]

/-!
## Objects

An entry is looked up by its key.  Keys differ, so what is found under a field is
what stands there, and a field that is there in both spellings is found under its
document key only, which leaves the other entry over.
-/

theorem same_text_iff {name : String} {key : Value} :
    (Value.text name).same key = true ↔ key = .text name := by
  cases key with
  | text s =>
      rw [Value.same_text, beq_iff_eq, Value.text.injEq]
      exact eq_comm
  | _ => simp [Value.same]

theorem eq_of_mem_entries {es : List (Value × Value)} (hnames : (es.map (·.1)).Nodup)
    {key v w : Value} (hv : (key, v) ∈ es) (hw : (key, w) ∈ es) : v = w := by
  have heq := List.inj_on_of_nodup_map hnames hv hw rfl
  exact (Prod.mk.inj heq).2

theorem lookup_eq_some {es : List (Value × Value)} (hnames : (es.map (·.1)).Nodup)
    {name : String} {v : Value} (h : (Value.text name, v) ∈ es) :
    Value.lookup es (.text name) = some v := by
  unfold Value.lookup
  cases hfind : es.find? fun e => (Value.text name).same e.1 with
  | none =>
      have hno := List.find?_eq_none.mp hfind _ h
      exact absurd (same_text_iff.mpr rfl) hno
  | some e =>
      have hsame : (Value.text name).same e.1 = true := by simpa using List.find?_some hfind
      have hkey := same_text_iff.mp hsame
      have hmem : (Value.text name, e.2) ∈ es := by
        rw [← hkey]
        exact List.mem_of_find?_eq_some hfind
      rw [Option.map_some, eq_of_mem_entries hnames hmem h]

theorem lookup_eq_none {es : List (Value × Value)} {name : String} (h : ¬ HasKey es name) :
    Value.lookup es (.text name) = none := by
  unfold Value.lookup
  rw [Option.map_eq_none_iff, List.find?_eq_none]
  intro e he hsame
  have hkey := same_text_iff.mp hsame
  apply h
  exists e.2
  rw [← hkey]
  exact he

/-- What is found under a field: the value under its document key, or else the one under its
word, or else nothing. -/
theorem findField_cases {es : List (Value × Value)} (hnames : (es.map (·.1)).Nodup)
    (key label : String) :
    (∃ v, (Value.text key, v) ∈ es ∧ Site.findField es key label = some (key, v))
      ∨ (¬ HasKey es key ∧ ∃ v, (Value.text label, v) ∈ es
        ∧ Site.findField es key label = some (label, v))
      ∨ (¬ HasKey es key ∧ ¬ HasKey es label ∧ Site.findField es key label = none) := by
  unfold Site.findField
  by_cases hkey : HasKey es key
  · rcases hkey with ⟨v, hv⟩
    apply Or.inl
    exact ⟨v, hv, by simp [lookup_eq_some hnames hv]⟩
  · apply Or.inr
    by_cases hlabel : HasKey es label
    · rcases hlabel with ⟨v, hv⟩
      apply Or.inl
      exact ⟨hkey, v, hv, by simp [lookup_eq_none hkey, lookup_eq_some hnames hv]⟩
    · apply Or.inr
      exact ⟨hkey, hlabel, by simp [lookup_eq_none hkey, lookup_eq_none hlabel]⟩

theorem findField_eq_some {es : List (Value × Value)} (hnames : (es.map (·.1)).Nodup)
    {key label name : String} {v : Value} (h : Site.findField es key label = some (name, v)) :
    name = key ∨ (name = label ∧ ¬ HasKey es key) := by
  rcases findField_cases hnames key label with ⟨w, _, hfind⟩ | ⟨hkey, w, _, hfind⟩ | ⟨_, _, hfind⟩
  · rw [hfind] at h
    cases h
    exact Or.inl rfl
  · rw [hfind] at h
    cases h
    exact Or.inr ⟨rfl, hkey⟩
  · rw [hfind] at h
    cases h

theorem isAccepted_noExtras {s : Site} {es : List (Value × Value)}
    {fields : List (String × String)} :
    (s.noExtras es fields).IsAccepted ↔
      ∀ e ∈ es, ∃ name v, e.1 = .text name
        ∧ ∃ f ∈ fields, Site.findField es f.1 f.2 = some (name, v) := by
  have hused : ∀ name, (fields.filterMap fun f =>
      (Site.findField es f.1 f.2).map (·.1)).contains name = true ↔
        ∃ v, ∃ f ∈ fields, Site.findField es f.1 f.2 = some (name, v) := by
    intro name
    rw [List.contains_iff_mem, List.mem_filterMap]
    constructor
    · rintro ⟨f, hf, h⟩
      rcases Option.map_eq_some_iff.mp h with ⟨⟨_, v⟩, hfind, rfl⟩
      exact ⟨v, f, hf, hfind⟩
    · rintro ⟨v, f, hf, hfind⟩
      exact ⟨f, hf, by rw [hfind]; rfl⟩
  unfold Site.noExtras
  dsimp only
  split
  · rename_i hnil
    rw [List.filterMap_eq_nil_iff] at hnil
    constructor
    · intro _ e he
      have hextra := hnil e he
      split at hextra
      · rename_i name hname
        split at hextra
        · rename_i hmem
          rcases (hused name).mp hmem with ⟨v, hfound⟩
          exact ⟨name, v, hname, hfound⟩
        · cases hextra
      · cases hextra
    · intro _
      exact Verdict.isAccepted_accepted ()
  · rename_i hne
    constructor
    · intro h
      exact absurd h (Verdict.not_isAccepted_rejected _)
    · intro h
      apply absurd _ hne
      rw [List.filterMap_eq_nil_iff]
      intro e he
      rcases h e he with ⟨name, v, hname, hfound⟩
      rw [hname]
      exact if_pos ((hused name).mpr ⟨v, hfound⟩)

def FieldFits (kind : Kind) (es : List (Value × Value)) (f : Field) (absent : Prop)
    (P : Value → Prop) : Prop :=
  match Site.findField es (kind.key f) f.label with
  | some (_, v) => P v
  | none => absent

theorem label_inj (kind : Kind) :
    ∀ f ∈ kind.fields, ∀ g ∈ kind.fields, f.label = g.label → f = g := by
  cases kind <;> decide

section Object

variable {kind : Kind} {required : List Field} {allowed : Field → Value → Prop} {s : Site}
  {es : List (Value × Value)}

theorem isAccepted_closed_iff :
    (Form.closed ⟨kind, s, es⟩).IsAccepted ↔
      ∀ e ∈ es, ∃ f ∈ kind.fields, ∃ name v,
        Site.findField es (kind.key f) f.label = some (name, v) ∧ e.1 = .text name := by
  rw [Form.closed, isAccepted_noExtras]
  apply forall₂_congr
  intro e _
  constructor
  · rintro ⟨name, v, hname, spelling, hmem, hfind⟩
    rcases List.mem_map.mp hmem with ⟨f, hf, rfl⟩
    exact ⟨f, hf, name, v, hfind, hname⟩
  · rintro ⟨f, hf, name, v, hfind, hname⟩
    exact ⟨name, v, hname, _, List.mem_map_of_mem hf, hfind⟩

theorem IsObject.fieldFits (h : IsObject kind required allowed es)
    (hnames : (es.map (·.1)).Nodup) {f : Field} (hf : f ∈ kind.fields) :
    FieldFits kind es f (f ∉ required) (allowed f) := by
  unfold FieldFits
  rcases findField_cases hnames (kind.key f) f.label with
    ⟨v, hv, hfind⟩ | ⟨_, v, hv, hfind⟩ | ⟨hkey, hlabel, hfind⟩
  · rw [hfind]
    exact h.fits f hf v (Or.inl hv)
  · rw [hfind]
    exact h.fits f hf v (Or.inr hv)
  · rw [hfind]
    intro hmem
    rcases h.present f hmem with ⟨v, hv | hv⟩
    · exact hkey ⟨v, hv⟩
    · exact hlabel ⟨v, hv⟩

theorem IsObject.closed (h : IsObject kind required allowed es)
    (hnames : (es.map (·.1)).Nodup) : (Form.closed ⟨kind, s, es⟩).IsAccepted := by
  rw [isAccepted_closed_iff]
  rintro ⟨key, value⟩ he
  rcases h.known _ he with ⟨f, hf, rfl | rfl⟩
  · rcases findField_cases hnames (kind.key f) f.label with
      ⟨v, _, hfind⟩ | ⟨hkey, _⟩ | ⟨hkey, _⟩
    · exact ⟨f, hf, _, v, hfind, rfl⟩
    · exact absurd ⟨value, he⟩ hkey
    · exact absurd ⟨value, he⟩ hkey
  · rcases findField_cases hnames (kind.key f) f.label with
      ⟨v, hv, hfind⟩ | ⟨_, v, _, hfind⟩ | ⟨_, hlabel, _⟩
    · have hsame := h.once f hf ⟨v, hv⟩ ⟨value, he⟩
      exact ⟨f, hf, _, v, hfind, congrArg Value.text hsame.symm⟩
    · exact ⟨f, hf, _, v, hfind, rfl⟩
    · exact absurd ⟨value, he⟩ hlabel

theorem once_of_closed (hnames : (es.map (·.1)).Nodup)
    (hclosed : (Form.closed ⟨kind, s, es⟩).IsAccepted) :
    ∀ f ∈ kind.fields, HasKey es (kind.key f) → HasKey es f.label → kind.key f = f.label := by
  rintro f hf hkey ⟨v, hv⟩
  rcases isAccepted_closed_iff.mp hclosed _ hv with ⟨g, hg, name, w, hfind, hname⟩
  have hlabel : f.label = name := Value.text.inj hname
  rcases findField_eq_some hnames hfind with rfl | ⟨rfl, hno⟩
  · have hsame := kind.eq_of_label_eq_key f hf g hg hlabel
    subst hsame
    exact hlabel.symm
  · have hsame := label_inj kind f hf g hg hlabel
    subst hsame
    exact absurd hkey hno

/-- The entries of an object fit its kind exactly if what is found under each field fits and
nothing else is left over. -/
theorem isObject_iff (hrequired : ∀ f ∈ required, f ∈ kind.fields)
    (hnames : (es.map (·.1)).Nodup) :
    IsObject kind required allowed es ↔
      (∀ f ∈ kind.fields, FieldFits kind es f (f ∉ required) (allowed f))
        ∧ (Form.closed ⟨kind, s, es⟩).IsAccepted := by
  constructor
  · intro h
    exact ⟨fun f hf => h.fieldFits hnames hf, h.closed hnames⟩
  · rintro ⟨hfits, hclosed⟩
    have honce := once_of_closed hnames hclosed
    constructor
    · intro e he
      rcases isAccepted_closed_iff.mp hclosed e he with ⟨f, hf, name, v, hfind, hname⟩
      rcases findField_eq_some hnames hfind with rfl | ⟨rfl, _⟩
      · exact ⟨f, hf, Or.inl hname⟩
      · exact ⟨f, hf, Or.inr hname⟩
    · exact honce
    · intro f hmem
      have hfit := hfits f (hrequired f hmem)
      rcases findField_cases hnames (kind.key f) f.label with
        ⟨v, hv, _⟩ | ⟨_, v, hv, _⟩ | ⟨_, _, hfind⟩
      · exact ⟨v, Or.inl hv⟩
      · exact ⟨v, Or.inr hv⟩
      · rw [FieldFits, hfind] at hfit
        exact absurd hmem hfit
    · intro f hf v hholds
      have hfit := hfits f hf
      rcases findField_cases hnames (kind.key f) f.label with
        ⟨w, hw, hfind⟩ | ⟨hkey, w, hw, hfind⟩ | ⟨hkey, hlabel, _⟩
      · rw [FieldFits, hfind] at hfit
        have hv : (Value.text (kind.key f), v) ∈ es := by
          rcases hholds with hv | hv
          · exact hv
          · rw [honce f hf ⟨w, hw⟩ ⟨v, hv⟩]
            exact hv
        rw [eq_of_mem_entries hnames hv hw]
        exact hfit
      · rw [FieldFits, hfind] at hfit
        rcases hholds with hv | hv
        · exact absurd ⟨v, hv⟩ hkey
        · rw [eq_of_mem_entries hnames hv hw]
          exact hfit
      · rcases hholds with hv | hv
        · exact absurd ⟨v, hv⟩ hkey
        · exact absurd ⟨v, hv⟩ hlabel

/-!
## Fields
-/

variable {check : Site → Verdict α} {P : Value → Prop} {f : Field}

theorem isAccepted_required (h : Recognizes check P) (hnames : (es.map (·.1)).Nodup)
    (hes : ∀ e ∈ es, e.2.IsJson) :
    (Form.required ⟨kind, s, es⟩ f check).IsAccepted ↔ FieldFits kind es f False P := by
  unfold Form.required Site.required FieldFits
  dsimp only
  rcases findField_cases hnames (kind.key f) f.label with
    ⟨v, hv, hfind⟩ | ⟨_, v, hv, hfind⟩ | ⟨_, _, hfind⟩
  · rw [hfind]
    exact h.child (hes _ hv) s _
  · rw [hfind]
    exact h.child (hes _ hv) s _
  · rw [hfind]
    simp

theorem isAccepted_defaulted (h : Recognizes check P) (hnames : (es.map (·.1)).Nodup)
    (hes : ∀ e ∈ es, e.2.IsJson) (default : α) :
    (Form.defaulted ⟨kind, s, es⟩ f default check).IsAccepted ↔ FieldFits kind es f True P := by
  unfold Form.defaulted Site.defaulted FieldFits
  dsimp only
  rcases findField_cases hnames (kind.key f) f.label with
    ⟨v, hv, hfind⟩ | ⟨_, v, hv, hfind⟩ | ⟨_, _, hfind⟩
  · rw [hfind]
    exact h.child (hes _ hv) s _
  · rw [hfind]
    exact h.child (hes _ hv) s _
  · rw [hfind]
    simp

theorem isAccepted_optional (h : Recognizes check P) (hnames : (es.map (·.1)).Nodup)
    (hes : ∀ e ∈ es, e.2.IsJson) :
    (Form.optional ⟨kind, s, es⟩ f check).IsAccepted ↔ FieldFits kind es f True (OrNull P) :=
  isAccepted_defaulted (recognizes_optional h) hnames hes none

end Object

theorem recognizes_object {kind : Kind} {required : List Field}
    {allowed : Field → Value → Prop} {fields : Form → Verdict α}
    (hrequired : ∀ f ∈ required, f ∈ kind.fields)
    (h : ∀ (s : Site) (es : List (Value × Value)), (es.map (·.1)).Nodup →
      (∀ e ∈ es, e.2.IsJson) → ((fields ⟨kind, s, es⟩).IsAccepted ↔
        (∀ f ∈ kind.fields, FieldFits kind es f (f ∉ required) (allowed f))
          ∧ (Form.closed ⟨kind, s, es⟩).IsAccepted)) :
    Recognizes (fun s => Form.check kind s fields)
      fun v => ∃ es, v = .dict es ∧ IsObject kind required allowed es := by
  intro s hs _
  change (Form.check kind s fields).IsAccepted ↔
    ∃ es, s.value = .dict es ∧ IsObject kind required allowed es
  unfold Form.check
  generalize s.value = v at hs ⊢
  cases hs with
  | @dict es hkeys hnames hes =>
      have hobject := @isObject_iff kind required allowed s es hrequired hnames
      simp only [Site.entries?, Value.dict.injEq, exists_eq_left']
      rw [hobject]
      split
      · -- a broken key is no key of a field
        rename_i hbroken
        rw [Bool.and_eq_true, List.any_eq_true] at hbroken
        rcases hbroken with ⟨_, e, he, hbroken⟩
        have hclosed : ¬ (Form.closed ⟨kind, s, es⟩).IsAccepted := by
          intro hclosed
          rcases isAccepted_closed_iff.mp hclosed e he with ⟨_, _, name, _, _, hname⟩
          rw [hname] at hbroken
          cases hbroken
        simp [hclosed]
      · exact h s es hnames hes
  | _ => simp [Site.entries?]

end Schema
end TextMate
