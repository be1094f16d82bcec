import TextMate.Proofs.Grammar.Checked
import TextMate.Proofs.Grammar.Recognition
import TextMate.Proofs.Schema.GroupKeys
import TextMate.Proofs.Yaml.WellKeyed

/-!
# Captures under keys of any type

The keys of captures become texts before the captures are checked.  An accepted
pattern has captures that were given, each under the text of its key.  All of them
are kept, in their order, exactly if no key is a text that is the text of another
key as well and the undefined number is a key at most once; otherwise the captures
under one of two keys are lost.
-/

namespace TextMate

/-!
## Entries under texts
-/

namespace Value

theorem mem_setEntry {es : List (Value × Value)} {key v : Value} (hkey : key.IsText)
    {e : Value × Value} (h : e ∈ setEntry es key v) : e ∈ es ∨ e = (key, v) := by
  unfold setEntry at h
  split at h
  · rcases List.mem_map.mp h with ⟨d, hd, rfl⟩
    split
    · rename_i hsame
      rw [(same_iff_of_isText hkey).mp hsame]
      exact Or.inr rfl
    · exact Or.inl hd
  · rcases List.mem_append.mp h with h | h
    · exact Or.inl h
    · exact Or.inr (List.mem_singleton.mp h)

theorem mem_of_dictOf {es fs : List (Value × Value)} (hkeys : ∀ e ∈ es, e.1.IsText)
    (h : dictOf es = .dict fs) : ∀ e ∈ fs, e ∈ es := by
  have hfold : ∀ rest done : List (Value × Value), (∀ e ∈ rest, e.1.IsText) →
      ∀ e ∈ rest.foldl (fun acc e => setEntry acc e.1 e.2) done, e ∈ done ∨ e ∈ rest := by
    intro rest
    induction rest with
    | nil => exact fun done _ e he => Or.inl he
    | cons d rest ih =>
        intro done htexts e he
        rcases ih _ (fun c hc => htexts c (List.mem_cons_of_mem _ hc)) e he with hmem | hmem
        · rcases mem_setEntry (htexts d List.mem_cons_self) hmem with hmem | rfl
          · exact Or.inl hmem
          · exact Or.inr List.mem_cons_self
        · exact Or.inr (List.mem_cons_of_mem _ hmem)
  cases h
  intro e he
  rcases hfold es [] hkeys e he with hmem | hmem
  · cases hmem
  · exact hmem

end Value

namespace Schema

/-!
## Captures by the texts of their keys
-/

theorem isText_textKey (k : Value) : (textKey k).IsText := by
  cases k <;> trivial

theorem plainForm_textKey (k : Value) : (textKey k).plainForm = k.plainForm := by
  cases k <;> rfl

theorem text_of_isText {s : Site} (h : s.value.IsText) : s.text = .accepted s.value.plainForm := by
  rw [Site.text]
  generalize s.value = v at h
  cases v with
  | text t => rfl
  | broken codes => rfl
  | _ => exact h.elim

theorem exists_of_mem_right {α β : Type} {R : α → β → Prop} {as : List α} {bs : List β}
    (h : List.Forall₂ R as bs) {b : β} (hb : b ∈ bs) : ∃ a ∈ as, R a b := by
  induction h with
  | nil => cases hb
  | cons hhead _ ih =>
      rcases List.mem_cons.mp hb with rfl | hb
      · exact ⟨_, List.mem_cons_self, hhead⟩
      · rcases ih hb with ⟨a, ha, hab⟩
        exact ⟨a, List.mem_cons_of_mem _ ha, hab⟩

namespace Site

theorem resolve_place (v : Value) (place place' : List Step) (number : Option Nat)
    (anchors : List (Nat × Value)) :
    resolve ⟨v, place, number, anchors⟩ =
      { resolve ⟨v, place', number, anchors⟩ with place := place } := by
  unfold resolve
  dsimp only
  split
  · rfl
  · split <;> rfl
  · rfl

/-- An entry of captures stands for a capture under the text of its key: its value is accepted
as the capture where it stands, whatever the way to it. -/
def Gives (s : Site) (e : Value × Value) (c : String × Capture) : Prop :=
  c.1 = e.1.plainForm ∧ ∃ place,
    checkCapture Grammar.assembly (resolve ⟨e.2, place, s.number, s.anchors⟩) = .accepted c.2

theorem text_unique {s t : Site} (hvalue : s.value = t.value) {a b : String}
    (ha : s.text = .accepted a) (hb : t.text = .accepted b) : a = b := by
  unfold text at ha hb
  rw [← hvalue] at hb
  generalize s.value = v at ha hb
  cases v with
  | text x => exact Verdict.accepted.inj (ha.symm.trans hb)
  | broken codes => exact Verdict.accepted.inj (ha.symm.trans hb)
  | bytes bs =>
      dsimp only at ha hb
      cases hdecode : Text.decodeUtf8 bs with
      | ok x =>
          rw [hdecode] at ha hb
          exact Verdict.accepted.inj (ha.symm.trans hb)
      | error e =>
          rw [hdecode] at ha
          cases ha
  | _ => cases ha

theorem checkCapture_eq (s : Site) :
    checkCapture Grammar.assembly s = Form.check .capture s fun form =>
      (Capture.mk <$> form.required .name text) <* form.closed := rfl

/-- An entry stands for one capture. -/
theorem Gives.eq {s : Site} {e : Value × Value} {c d : String × Capture} (hc : s.Gives e c)
    (hd : s.Gives e d) : c = d := by
  rcases hc with ⟨hkey, place, hc⟩
  rcases hd with ⟨hkey', place', hd⟩
  rw [checkCapture_eq, resolve_place _ _ []] at hc hd
  generalize resolve ⟨e.2, [], s.number, s.anchors⟩ = r at hc hd
  rcases Form.check_eq_accepted hc with ⟨es, hes, hc⟩
  rcases Form.check_eq_accepted hd with ⟨es', hes', hd⟩
  cases hes.symm.trans hes'
  rcases Verdict.map_eq_accepted_iff.mp (Verdict.seqLeft_eq_accepted_iff.mp hc).1 with
    ⟨name, hname, hcapture⟩
  rcases Verdict.map_eq_accepted_iff.mp (Verdict.seqLeft_eq_accepted_iff.mp hd).1 with
    ⟨name', hname', hcapture'⟩
  unfold Form.required required at hname hname'
  split at hname
  · rename_i heq
    simp only [heq] at hname'
    have hsame : name = name' := by
      refine text_unique ?_ hname hname'
      rw [child, child, resolve_place]
    rw [← hsame] at hcapture'
    exact Prod.ext (hkey.trans hkey'.symm) (hcapture.symm.trans hcapture')
  · cases hname

theorem mapping_eq_namedOf {s : Site} {es : List (Value × Value)} {cs : List (String × Capture)}
    (hvalue : s.value = .dict es) (hkeys : ∀ e ∈ es, e.1.IsText)
    (h : mapping (checkCapture Grammar.assembly) s = .accepted cs) :
    ∃ all, cs = namedOf all ∧ List.Forall₂ s.Gives es all := by
  unfold mapping at h
  rw [hvalue] at h
  rcases Verdict.map_eq_accepted_iff.mp h with ⟨all, hall, rfl⟩
  refine ⟨all, rfl, ?_⟩
  have heach : List.Forall₂ Eq _ _ := List.forall₂_eq_eq_eq ▸ Verdict.all_eq_accepted hall
  rw [List.forall₂_map_left_iff, List.forall₂_map_right_iff] at heach
  refine ((List.forall₂_and_left _ _).mpr ⟨hkeys, heach⟩).imp ?_
  rintro e c ⟨hkey, hc⟩
  rcases Verdict.seq_eq_accepted_iff.mp hc with ⟨f, capture, hf, hcapture, rfl⟩
  rcases Verdict.map_eq_accepted_iff.mp hf with ⟨name, hname, rfl⟩
  rw [text_of_isText (s := { s with value := e.1, place := _ }) hkey] at hname
  cases hname
  exact ⟨rfl, _, hcapture⟩

def named (given : List (Value × Value)) : List (Value × Value) :=
  given.map fun e => (textKey e.1, e.2)

theorem Gives.of_named {s : Site} {e : Value × Value} {c : String × Capture}
    (h : s.Gives (textKey e.1, e.2) c) : s.Gives e c :=
  ⟨h.1.trans (plainForm_textKey e.1), h.2⟩

theorem names_eq_of_gives {s : Site} {given : List (Value × Value)} {cs : List (String × Capture)}
    (h : List.Forall₂ s.Gives given cs) :
    cs.map (·.1) = given.map fun e => e.1.plainForm := by
  induction h with
  | nil => rfl
  | cons hhead _ ih => rw [List.map_cons, List.map_cons, ih, hhead.1]

section Captures

variable {s : Site} {given : List (Value × Value)} {cs : List (String × Capture)}

theorem isText_of_mem_named : ∀ e ∈ named given, e.1.IsText := by
  intro e he
  rcases List.mem_map.mp he with ⟨d, _, rfl⟩
  exact isText_textKey d.1

theorem mapping_of_checkCaptures (hgiven : s.value = .dict given)
    (h : checkCaptures Grammar.assembly s = .accepted cs) :
    mapping (checkCapture Grammar.assembly) { s with value := .dictOf (named given) } =
      .accepted cs := by
  unfold checkCaptures at h
  rw [hgiven] at h
  dsimp only at h
  split at h
  · cases h
  · exact h

/-- Accepted captures were given, each under the text of its key. -/
theorem gives_of_checkCaptures (hgiven : s.value = .dict given)
    (h : checkCaptures Grammar.assembly s = .accepted cs) :
    ∀ c ∈ cs, ∃ e ∈ given, s.Gives e c := by
  have hmem := @Value.mem_of_dictOf (named given) _ isText_of_mem_named rfl
  rcases mapping_eq_namedOf rfl (fun e he => isText_of_mem_named e (hmem e he))
    (mapping_of_checkCaptures hgiven h) with ⟨all, rfl, hall⟩
  intro c hc
  rcases exists_of_mem_right hall (mem_of_mem_namedOf hc) with ⟨e, he, hgives⟩
  rcases List.mem_map.mp (hmem e he) with ⟨d, hd, rfl⟩
  exact ⟨d, hd, Gives.of_named hgives⟩

/-- Where the plain forms of the keys differ, all captures are accepted in their order. -/
theorem forall₂_of_checkCaptures (hgiven : s.value = .dict given)
    (hforms : (given.map fun e => e.1.plainForm).Nodup)
    (h : checkCaptures Grammar.assembly s = .accepted cs) : List.Forall₂ s.Gives given cs := by
  have hnames : ((named given).map (·.1)).Nodup := by
    apply List.Nodup.of_map Value.plainForm
    simpa [named, Function.comp_def, plainForm_textKey] using hforms
  rcases mapping_eq_namedOf (Value.dictOf_of_texts isText_of_mem_named hnames) isText_of_mem_named
    (mapping_of_checkCaptures hgiven h) with ⟨all, rfl, hall⟩
  have hgives : List.Forall₂ s.Gives given all := by
    rw [named, List.forall₂_map_left_iff] at hall
    exact hall.imp fun e c => Gives.of_named
  have hkept : (all.map (·.1)).Nodup := by
    rw [names_eq_of_gives hgives]
    exact hforms
  rwa [namedOf_of_nodup hkept]

/-- As many captures as were given are accepted only where the plain forms of the keys differ. -/
theorem nodup_of_length_eq (hgiven : s.value = .dict given)
    (h : checkCaptures Grammar.assembly s = .accepted cs) (hlength : cs.length = given.length) :
    (given.map fun e => e.1.plainForm).Nodup := by
  have hsub : cs.map (·.1) ⊆ given.map fun e => e.1.plainForm := by
    intro name hname
    rcases List.mem_map.mp hname with ⟨c, hc, rfl⟩
    rcases gives_of_checkCaptures hgiven h c hc with ⟨e, he, hgives⟩
    rw [hgives.1]
    exact List.mem_map_of_mem he
  exact nodup_of_subset_of_length_eq (nodup_of_checkCaptures h) hsub (by simpa using hlength)

end Captures

/-!
## Which captures are lost
-/

/-- No key that is a text is the text of another key. -/
def TextsTellKeys (given : List (Value × Value)) : Prop :=
  ∀ d ∈ given, ∀ e ∈ given, d.1.IsText → d.1 ≠ e.1 → d.1.plainForm ≠ e.1.plainForm

/-- The undefined number, which the reader may take for a new key each time, is a key once. -/
def UndefinedOnce (given : List (Value × Value)) : Prop :=
  given.Pairwise fun d e => d.1 = .float .nan → e.1 ≠ .float .nan

section Lost

variable {s : Site} {given : List (Value × Value)} {cs : List (String × Capture)}

/-- Different keys have different plain forms unless one of them is a text or both are undefined. -/
theorem nodup_plainForms_iff (hkeys : ∀ e ∈ given, e.1.IsGroupKey)
    (hdiffer : given.Pairwise fun d e => Yaml.MayDiffer d.1 e.1) :
    (given.map fun e => e.1.plainForm).Nodup ↔ TextsTellKeys given ∧ UndefinedOnce given := by
  constructor
  · intro h
    refine ⟨fun d hd e he _ hne hforms => ?_, ?_⟩
    · rw [List.inj_on_of_nodup_map h hd he hforms] at hne
      exact hne rfl
    · refine (List.pairwise_map.mp h).imp fun hforms hd he => hforms ?_
      rw [hd, he]
  · rintro ⟨htell, honce⟩
    rw [List.Nodup, List.pairwise_map]
    refine (hdiffer.and honce).imp_of_mem fun {d e} hd he hdistinct hforms => ?_
    have hne : d.1 ≠ e.1 := by
      intro heq
      rcases Yaml.mayDiffer_iff.mp hdistinct.1 with hsame | ⟨hnan, hnan'⟩
      · rw [heq, (hkeys e he).same_self] at hsame
        cases hsame
      · exact hdistinct.2 hnan hnan'
    by_cases hd' : d.1.IsText
    · exact htell d hd e he hd' hne hforms
    · by_cases he' : e.1.IsText
      · exact htell e he d hd he' hne.symm hforms.symm
      · exact hne (Value.plainForm_inj (hkeys d hd) (hkeys e he) hd' he' hforms)

theorem length_checkCaptures_iff (hgiven : s.value = .dict given)
    (hkeys : ∀ e ∈ given, e.1.IsGroupKey)
    (hdiffer : given.Pairwise fun d e => Yaml.MayDiffer d.1 e.1)
    (h : checkCaptures Grammar.assembly s = .accepted cs) :
    cs.length = given.length ↔ TextsTellKeys given ∧ UndefinedOnce given := by
  rw [← nodup_plainForms_iff hkeys hdiffer]
  constructor
  · exact nodup_of_length_eq hgiven h
  · exact fun hforms => (forall₂_of_checkCaptures hgiven hforms h).length_eq.symm

theorem forall₂_checkCaptures_iff (hgiven : s.value = .dict given)
    (hkeys : ∀ e ∈ given, e.1.IsGroupKey)
    (hdiffer : given.Pairwise fun d e => Yaml.MayDiffer d.1 e.1)
    (h : checkCaptures Grammar.assembly s = .accepted cs) :
    List.Forall₂ s.Gives given cs ↔ TextsTellKeys given ∧ UndefinedOnce given := by
  constructor
  · intro hgives
    rw [← length_checkCaptures_iff hgiven hkeys hdiffer h, hgives.length_eq]
  · intro htell
    exact forall₂_of_checkCaptures hgiven ((nodup_plainForms_iff hkeys hdiffer).mpr htell) h

end Lost

/-!
## Captures of a pattern
-/

def field? (s : Site) (f : Field) : Option Site :=
  (entries? s.value).bind fun es =>
    (findField es f.documentKey f.label).map fun found => s.child (.key found.1) found.2

theorem field?_labelled {s m : Site} {f : Field} (steps : List Step) (h : s.field? f = some m) :
    ∃ place, (s.labelled steps).field? f = some { m with place := place } := by
  rcases Option.bind_eq_some_iff.mp h with ⟨es, hes, hm⟩
  rcases Option.map_eq_some_iff.mp hm with ⟨found, hfound, rfl⟩
  refine ⟨s.place ++ steps ++ [.key found.1], ?_⟩
  rw [field?, show (s.labelled steps).value = s.value from rfl, hes, Option.bind_some, hfound,
    Option.map_some, child, child, resolve_place]
  rfl

theorem findField_name {es : List (Value × Value)} {key label name : String} {v : Value}
    (h : findField es key label = some (name, v)) :
    (name = key ∨ name = label) ∧ (Value.text name, v) ∈ es := by
  have hfind : ∀ n, (Value.lookup es (.text n)).map (fun v => (n, v)) = some (name, v) →
      name = n ∧ (Value.text name, v) ∈ es := by
    intro n hn
    rcases Option.map_eq_some_iff.mp hn with ⟨w, hw, heq⟩
    cases heq
    rcases Option.map_eq_some_iff.mp hw with ⟨e, he, rfl⟩
    have hsame : (Value.text name).same e.1 = true := by simpa using List.find?_some he
    have hkey := same_text_iff.mp hsame
    refine ⟨rfl, ?_⟩
    rw [← hkey]
    exact List.mem_of_find?_eq_some he
  unfold findField at h
  rcases Option.or_eq_some_iff.mp h with h | ⟨_, h⟩
  · exact ⟨Or.inl (hfind _ h).1, (hfind _ h).2⟩
  · exact ⟨Or.inr (hfind _ h).1, (hfind _ h).2⟩

end Site

section Fields

variable {α : Type} {kind : Kind} {s m : Site} {f : Field}

theorem optional_of_field? {es : List (Value × Value)} {check : Site → Verdict α} {x : Option α}
    (hkind : kind ≠ .summary) (hes : Site.entries? s.value = some es) (hm : s.field? f = some m)
    (hsome : m.value ≠ .null) (h : (Form.mk kind s es).optional f check = .accepted x) :
    ∃ a, x = some a ∧ check m = .accepted a := by
  rcases Option.bind_eq_some_iff.mp hm with ⟨es', hes', hfield⟩
  cases hes.symm.trans hes'
  rcases Option.map_eq_some_iff.mp hfield with ⟨⟨name, v⟩, hfound, rfl⟩
  have hkey : kind.key f = f.documentKey := by
    rw [Kind.key, if_neg (by simpa using hkind)]
  unfold Form.optional Site.defaulted at h
  simp only [hkey, hfound] at h
  unfold Site.optional at h
  split at h
  · rename_i hnull
    exact absurd hnull hsome
  · rcases Verdict.map_eq_accepted_iff.mp h with ⟨a, ha, rfl⟩
    exact ⟨a, rfl, ha⟩

def groupFields : List Field := [.captures, .openingCaptures, .closingCaptures]

theorem mem_fields_of_closed {es : List (Value × Value)}
    (hkind : kind ∈ [Kind.matching, .block, .reference]) (hf : f ∈ groupFields)
    (hes : Site.entries? s.value = some es) (hm : s.field? f = some m)
    (hclosed : (Form.closed ⟨kind, s, es⟩).IsAccepted) : f ∈ kind.fields := by
  -- no field of patterns has a name in common with another one
  have hnames : ∀ kind ∈ [Kind.matching, .block, .reference], ∀ f ∈ groupFields,
      ∀ g ∈ kind.fields, ∀ name ∈ [f.documentKey, f.label],
        name ∈ [kind.key g, g.label] → g = f := by decide
  rcases Option.bind_eq_some_iff.mp hm with ⟨es', hes', hfield⟩
  cases hes.symm.trans hes'
  rcases Option.map_eq_some_iff.mp hfield with ⟨⟨name, v⟩, hfound, rfl⟩
  rcases Site.findField_name hfound with ⟨hname, hmem⟩
  rcases isAccepted_closed_iff.mp hclosed _ hmem with ⟨g, hg, name', w, hother, hsame⟩
  cases hsame
  have heq := hnames kind hkind f hf g hg name (by simpa using hname)
    (by simpa using (Site.findField_name hother).1)
  exact heq ▸ hg

end Fields

end Schema

open Schema

namespace Pattern

def capturesUnder : Field → Pattern → Captures Capture
  | .captures, matching rule => rule.captures
  | .captures, block rule _ => rule.captures
  | .openingCaptures, block rule _ => rule.openingCaptures
  | .closingCaptures, block rule _ => rule.closingCaptures
  | _, _ => none

section Under

variable {s m : Site} {p : Pattern} {f : Field} {given : List (Value × Value)}

theorem capturesUnder_of_checkMatching (hf : f ∈ groupFields) (hm : s.field? f = some m)
    (hsome : m.value ≠ .null) (h : checkMatching Grammar.assembly s = .accepted p) :
    ∃ cs, p.capturesUnder f = some cs ∧ checkCaptures Grammar.assembly m = .accepted cs := by
  have hkind : Kind.matching ∈ [Kind.matching, .block, .reference] := by decide
  rcases Form.check_eq_accepted h with ⟨es, hes, h⟩
  rcases Verdict.seqLeft_eq_accepted_iff.mp h with ⟨h, hclosed⟩
  have hfield := mem_fields_of_closed hkind hf hes hm hclosed
  rcases Verdict.map_eq_accepted_iff.mp h with ⟨rule, hrule, rfl⟩
  simp only [Verdict.seq_eq_accepted_iff, Verdict.map_eq_accepted_iff] at hrule
  rcases hrule with ⟨_, captures, ⟨_, regex, ⟨name, _, rfl⟩, _, rfl⟩, hcaptures, rfl⟩
  have hcases : ∀ f ∈ groupFields, f ∈ Kind.matching.fields → f = .captures := by decide
  rw [hcases f hf hfield] at hm ⊢
  exact optional_of_field? (by decide) hes hm hsome hcaptures

theorem capturesUnder_of_checkBlock {inner : Site → Verdict Pattern} (hf : f ∈ groupFields)
    (hm : s.field? f = some m) (hsome : m.value ≠ .null)
    (h : checkBlock Grammar.assembly inner s = .accepted p) :
    ∃ cs, p.capturesUnder f = some cs ∧ checkCaptures Grammar.assembly m = .accepted cs := by
  rcases Form.check_eq_accepted h with ⟨es, hes, h⟩
  rcases Verdict.seqLeft_eq_accepted_iff.mp h with ⟨h, _⟩
  rcases Verdict.seq_eq_accepted_iff.mp h with ⟨_, patterns, hrule, _, rfl⟩
  rcases Verdict.map_eq_accepted_iff.mp hrule with ⟨rule, hchecked, rfl⟩
  unfold checkBlockRule at hchecked
  simp only [Verdict.seq_eq_accepted_iff, Verdict.map_eq_accepted_iff] at hchecked
  rcases hchecked with ⟨_, contentName, ⟨_, captures, ⟨_, closingCaptures, ⟨_, closing,
    ⟨_, openingCaptures, ⟨_, opening, ⟨name, _, rfl⟩, _, rfl⟩, hopening, rfl⟩, _, rfl⟩,
    hclosing, rfl⟩, hcaptures, rfl⟩, _, rfl⟩
  have hkind : Kind.block ≠ .summary := by decide
  simp only [groupFields, List.mem_cons, List.not_mem_nil, or_false] at hf
  rcases hf with rfl | rfl | rfl
  · exact optional_of_field? hkind hes hm hsome hcaptures
  · exact optional_of_field? hkind hes hm hsome hopening
  · exact optional_of_field? hkind hes hm hsome hclosing

theorem not_field?_of_checkReference (hf : f ∈ groupFields)
    (h : checkReference Grammar.assembly s = .accepted p) : s.field? f ≠ some m := by
  intro hm
  have hkind : Kind.reference ∈ [Kind.matching, .block, .reference] := by decide
  rcases Form.check_eq_accepted h with ⟨es, hes, h⟩
  rcases Verdict.seqLeft_eq_accepted_iff.mp h with ⟨_, hclosed⟩
  have hnone : ∀ f ∈ groupFields, f ∉ Kind.reference.fields := by decide
  exact hnone f hf (mem_fields_of_closed hkind hf hes hm hclosed)

theorem capturesUnder_of_checkPattern {nesting : Nat} {opened : List Nat} (hf : f ∈ groupFields)
    (hm : s.field? f = some m) (hsome : m.value ≠ .null)
    (h : checkPattern Grammar.assembly nesting opened s = .accepted p) :
    ∃ cs place, p.capturesUnder f = some cs
      ∧ checkCaptures Grammar.assembly { m with place := place } = .accepted cs := by
  rcases checkPattern_cases h with ⟨steps, h⟩ | ⟨steps, h⟩ | ⟨n, inside, steps, _, h⟩
  · rcases Site.field?_labelled steps hm with ⟨place, hm⟩
    rcases capturesUnder_of_checkMatching hf hm hsome h with ⟨cs, hunder, hcs⟩
    exact ⟨cs, place, hunder, hcs⟩
  · rcases Site.field?_labelled steps hm with ⟨place, hm⟩
    exact absurd hm (not_field?_of_checkReference hf h)
  · rcases Site.field?_labelled steps hm with ⟨place, hm⟩
    rcases capturesUnder_of_checkBlock hf hm hsome h with ⟨cs, hunder, hcs⟩
    exact ⟨cs, place, hunder, hcs⟩

end Under

end Pattern

/-- An accepted pattern has captures that were given, each under the text of its key.  All are
kept, in their order, exactly if no key is a text that is the text of another key and the undefined
number is a key at most once. -/
theorem captures_kept_iff_texts_tell_keys {nesting : Nat} {opened : List Nat} {s m : Site}
    {p : Pattern} {f : Field} {given : List (Value × Value)}
    (h : checkPattern Grammar.assembly nesting opened s = .accepted p)
    (hf : f ∈ groupFields) (hm : s.field? f = some m) (hgiven : m.value = .dict given)
    (hkeys : ∀ e ∈ given, e.1.IsGroupKey)
    (hdiffer : given.Pairwise fun d e => Yaml.MayDiffer d.1 e.1) :
    ∃ cs, p.capturesUnder f = some cs
      ∧ (∀ c ∈ cs, ∃ e ∈ given, m.Gives e c)
      ∧ (cs.length = given.length ↔ Site.TextsTellKeys given ∧ Site.UndefinedOnce given)
      ∧ (List.Forall₂ m.Gives given cs ↔
        Site.TextsTellKeys given ∧ Site.UndefinedOnce given) := by
  have hsome : m.value ≠ .null := by
    rw [hgiven]
    simp
  rcases Pattern.capturesUnder_of_checkPattern hf hm hsome h with ⟨cs, place, hunder, hcs⟩
  refine ⟨cs, hunder, ?_, ?_, ?_⟩
  · exact Site.gives_of_checkCaptures (s := { m with place := place }) hgiven hcs
  · exact Site.length_checkCaptures_iff (s := { m with place := place }) hgiven hkeys hdiffer hcs
  · exact Site.forall₂_checkCaptures_iff (s := { m with place := place }) hgiven hkeys hdiffer hcs

def numberAndText : List (Value × Value) :=
  [(.int 1, .dict [(.text "name", .text "number")]),
    (.text "1", .dict [(.text "name", .text "text")])]

def numberAndTextPattern : Value :=
  .dict [(.text "match", .text "(a)"), (.text "captures", .dict numberAndText)]

/-- A pattern with captures under a number and under its text is accepted without the first. -/
theorem numberAndText_loses_one :
    ∃ p cs, checkPattern Grammar.assembly maxNesting [] (Site.top numberAndTextPattern) =
        .accepted p
      ∧ p.capturesUnder .captures = some cs ∧ cs.length ≠ numberAndText.length := by
  have hok : (checkPattern Grammar.assembly maxNesting []
      (Site.top numberAndTextPattern)).toExcept.isOk = true := by decide +kernel
  have hm : (Site.top numberAndTextPattern).field? .captures =
      some ⟨.dict numberAndText, [.key "captures"], none, []⟩ := by
    simp [numberAndTextPattern, Site.field?, Site.top, Site.resolve, Site.entries?,
      Site.findField, Value.lookup, Site.child, Field.documentKey, Field.label]
  have hkeys : ∀ e ∈ numberAndText, e.1.IsGroupKey := by
    simp [numberAndText, Value.IsGroupKey]
  have hdiffer : numberAndText.Pairwise fun d e => Yaml.MayDiffer d.1 e.1 := by
    simp [numberAndText, Yaml.mayDiffer_iff, Value.same, Value.number?]
  have hsame : ¬ Site.TextsTellKeys numberAndText := by
    intro htell
    exact htell (.text "1", .dict [(.text "name", .text "text")]) (by simp [numberAndText])
      (.int 1, .dict [(.text "name", .text "number")]) (by simp [numberAndText]) trivial
      (by simp) rfl
  cases hp : checkPattern Grammar.assembly maxNesting [] (Site.top numberAndTextPattern) with
  | rejected problems =>
      rw [hp] at hok
      cases hok
  | accepted p =>
      rcases captures_kept_iff_texts_tell_keys hp (by decide) hm rfl hkeys hdiffer with
        ⟨cs, hunder, _, hlength, _⟩
      exact ⟨p, cs, rfl, hunder, fun h => hsame (hlength.mp h).1⟩

/-!
## Keys of captures that are read

The captures of a pattern in a document have keys as they are assumed above, unless one
of the keys is a date, a moment or binary data.
-/

namespace Schema
namespace Site

/-- The sites that are met from a site on. -/
inductive Reaches (s : Site) : Site → Prop where
  | here : Reaches s s
  | labelled {t : Site} (steps : List Step) : Reaches s t -> Reaches s (t.labelled steps)
  | entry {t : Site} {es : List (Value × Value)} {e : Value × Value} (step : Step) :
      Reaches s t -> entries? t.value = some es -> e ∈ es -> Reaches s (t.child step e.2)
  | item {t m : Site} {ms : List Site} : Reaches s t -> t.items = some ms -> m ∈ ms -> Reaches s m

theorem Reaches.field? {s t m : Site} {f : Field} (h : s.Reaches t) (hm : t.field? f = some m) :
    s.Reaches m := by
  rcases Option.bind_eq_some_iff.mp hm with ⟨es, hes, hfield⟩
  rcases Option.map_eq_some_iff.mp hfield with ⟨⟨name, v⟩, hfound, rfl⟩
  exact h.entry (.key name) hes (findField_name hfound).2

/-- Whether the keys of the mappings that are met from a site on are scalars that may differ. -/
structure IsWellKeyed (s : Site) : Prop where
  value : s.value.IsWellKeyed
  anchors : ∀ a ∈ s.anchors, a.2.IsWellKeyed

theorem IsWellKeyed.resolve {s : Site} (h : s.IsWellKeyed) : s.resolve.IsWellKeyed := by
  rcases s with ⟨v, place, number, anchors⟩
  have hanchored : ∀ n w, v = .anchored n w → w.IsWellKeyed := by
    intro n w heq
    subst heq
    exact h.value.of_anchored
  unfold Site.resolve
  dsimp only
  split
  next n w =>
    have hw := hanchored n w rfl
    exact ⟨hw.bare, List.forall_mem_cons.mpr ⟨hw, h.anchors⟩⟩
  next n =>
    split
    next entry hentry => exact ⟨(h.anchors _ (List.mem_of_find?_eq_some hentry)).bare, h.anchors⟩
    · exact ⟨.again n, h.anchors⟩
  · exact ⟨h.value, h.anchors⟩

theorem IsWellKeyed.child {s : Site} (h : s.IsWellKeyed) (step : Step) {v : Value}
    (hv : v.IsWellKeyed) : (s.child step v).IsWellKeyed :=
  IsWellKeyed.resolve ⟨hv, h.anchors⟩

theorem isWellKeyed_top {v : Value} (h : v.IsWellKeyed) : (top v).IsWellKeyed :=
  IsWellKeyed.resolve ⟨h, nofun⟩

theorem isWellKeyed_of_entries? {v : Value} (h : v.IsWellKeyed) {es : List (Value × Value)}
    (hes : entries? v = some es) : ∀ e ∈ es, e.2.IsWellKeyed := by
  cases h with
  | dict _ _ hvalues =>
      cases hes
      exact hvalues
  | scalar hscalar => cases v <;> first | exact hscalar.elim | cases hes
  | _ => cases hes

theorem IsWellKeyed.items {s m : Site} (h : s.IsWellKeyed) {ms : List Site}
    (hms : s.items = some ms) (hm : m ∈ ms) : m.IsWellKeyed := by
  have hmembers : ∀ {vs : List Value}, (∀ v ∈ vs, v.IsWellKeyed) →
      m ∈ (vs.mapIdx fun i v => s.child (.index i) v) → m.IsWellKeyed := by
    intro vs hvs hm
    rcases List.mem_mapIdx.mp hm with ⟨i, hi, rfl⟩
    exact h.child _ (hvs _ (List.getElem_mem hi))
  have hvalue := h.value
  unfold Site.items at hms
  generalize s.value = v at hms hvalue
  cases hvalue with
  | list hvs | tuple hvs =>
      cases hms
      exact hmembers hvs hm
  | set hkeys =>
      cases hms
      exact hmembers (fun key hkey => .scalar (hkeys key hkey)) hm
  | scalar hscalar => cases v <;> first | exact hscalar.elim | cases hms
  | _ => cases hms

theorem IsWellKeyed.of_reaches {s m : Site} (h : s.IsWellKeyed) (hm : s.Reaches m) :
    m.IsWellKeyed := by
  induction hm with
  | here => exact h
  | labelled steps _ ih => exact ⟨ih.value, ih.anchors⟩
  | entry step _ hes he ih => exact ih.child step (isWellKeyed_of_entries? ih.value hes _ he)
  | item _ hms hm ih => exact ih.items hms hm

/-- Wherever captures are met in a value that was read, their keys are scalars that may differ. -/
theorem captureKeys_of_read {text : String} {v : Value} (h : Yaml.read text = .ok v) {s m : Site}
    {f : Field} (hs : (top v).Reaches s) (hm : s.field? f = some m)
    {given : List (Value × Value)} (hgiven : m.value = .dict given) :
    (∀ e ∈ given, e.1.IsScalar) ∧ given.Pairwise fun d e => Yaml.MayDiffer d.1 e.1 := by
  have htop := isWellKeyed_top (Yaml.isWellKeyed_of_read h)
  have hvalue := (htop.of_reaches (hs.field? hm)).value
  rw [hgiven] at hvalue
  exact ⟨hvalue.entries.1, hvalue.entries.2.1⟩

end Site
end Schema

end TextMate
