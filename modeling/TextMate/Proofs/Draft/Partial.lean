import TextMate.Draft.Document
import TextMate.Proofs.Grammar.Place
import TextMate.Proofs.Schema.Members

/-!
# Partial patterns

The patterns of a draft may have fields that are unset or hold nothing; what the
other fields hold is what they hold in checked objects.  Checked patterns are
such patterns, and so are matching patterns and blocks that are filled in without
any check, as long as what is given for their fields is nothing or fits.
-/

namespace TextMate
namespace Draft

/-- What there is to hold for the fields of checked objects. -/
inductive Content where
  | text
  | texts
  | captures
  | patterns
  | entries
  | count
  deriving DecidableEq, Repr

def contentOf : Field → Content
  | .fileTypes => .texts
  | .captures | .openingCaptures | .closingCaptures => .captures
  | .patterns => .patterns
  | .repository => .entries
  | .patternCount | .repositoryCount => .count
  | _ => .text

/-- Whether a value is what there is to hold.  The members of lists of patterns and of
repositories may be any values here. -/
def Content.Fits : Content → Value → Prop
  | text, v => ∃ s, v = .text s
  | texts, v => ∃ types : List String, v = .list (types.map .text)
  | captures, v =>
      ∃ cs : List (String × Capture), v = ofNamed (cs.map fun c => (c.1, capture c.2.name))
  | patterns, v => ∃ vs, v = .list vs
  | entries, v => ∃ es, v = ofNamed es
  | count, v => ∃ n, v = .int n

/-- The set fields of an object: each is set once, belongs to the kind of the object, and holds
nothing or something that fits. -/
structure IsFilled (kind : Kind) (fields : List (Field × Value)) : Prop where
  names : (fields.map (·.1)).Nodup
  known : ∀ e ∈ fields, e.1 ∈ kind.fields
  fits : ∀ e ∈ fields, e.2 = .null ∨ (contentOf e.1).Fits e.2

section IsFilled

variable {kind : Kind} {fields : List (Field × Value)} {f : Field} {v : Value}

theorem IsFilled.mem_fields (h : IsFilled kind fields) (hmem : (f, v) ∈ fields) :
    f ∈ kind.fields :=
  h.known _ hmem

theorem IsFilled.null_or_fits (h : IsFilled kind fields) (hmem : (f, v) ∈ fields) :
    v = .null ∨ (contentOf f).Fits v :=
  h.fits _ hmem

end IsFilled

theorem contentOf_eq_patterns {f : Field} (h : contentOf f = .patterns) : f = .patterns := by
  cases f <;> first | rfl | cases h

theorem contentOf_eq_entries {f : Field} (h : contentOf f = .entries) : f = .repository := by
  cases f <;> first | rfl | cases h

/-- A pattern that need not be checked: a reference, or a matching pattern or a block of which
any field may be unset or hold nothing. -/
inductive IsPartial : Value → Prop where
  | reference (target : String) : IsPartial (reference target)
  | object {kind : Kind} {fields : List (Field × Value)} :
      kind = .matching ∨ kind = .block -> IsFilled kind fields ->
      (∀ vs, (.patterns, .list vs) ∈ fields -> ∀ v ∈ vs, IsPartial v) ->
      IsPartial (.record kind fields)

/-!
## Checked patterns and patterns that are filled in
-/

theorem isFilled_reference (target : String) :
    IsFilled .reference [(.target, .text target)] where
  names := by simp
  known := by simp [Kind.fields]
  fits := List.forall_mem_singleton.mpr (Or.inr ⟨target, rfl⟩)

theorem eq_null_or_fits_ofOption (s : Option String) :
    ofOption s = .null ∨ Content.text.Fits (ofOption s) := by
  cases s with
  | none => exact Or.inl rfl
  | some s => exact Or.inr ⟨s, rfl⟩

theorem eq_null_or_fits_ofCaptures (captures : Captures Capture) :
    ofCaptures (ofCheckedCaptures captures) = .null
      ∨ Content.captures.Fits (ofCaptures (ofCheckedCaptures captures)) := by
  cases captures with
  | none => exact Or.inl rfl
  | some cs => exact Or.inr ⟨cs, rfl⟩

theorem eq_null_or_fits_ofList (vs : Option (List Value)) :
    ofList vs = .null ∨ Content.patterns.Fits (ofList vs) := by
  cases vs with
  | none => exact Or.inl rfl
  | some vs => exact Or.inr ⟨vs, rfl⟩

theorem isFilled_matching (rule : MatchRule Capture) :
    IsFilled .matching [(.name, ofOption rule.name), (.regex, .text rule.regex),
      (.captures, ofCaptures (ofCheckedCaptures rule.captures))] where
  names := by simp
  known := by simp [Kind.fields]
  fits := by
    simp only [List.forall_mem_cons]
    exact ⟨eq_null_or_fits_ofOption _, Or.inr ⟨_, rfl⟩, eq_null_or_fits_ofCaptures _, nofun⟩

theorem isFilled_block (rule : BlockRule Capture) (patterns : Option (List Value)) :
    IsFilled .block [(.name, ofOption rule.name), (.opening, .text rule.opening),
      (.openingCaptures, ofCaptures (ofCheckedCaptures rule.openingCaptures)),
      (.closing, .text rule.closing),
      (.closingCaptures, ofCaptures (ofCheckedCaptures rule.closingCaptures)),
      (.captures, ofCaptures (ofCheckedCaptures rule.captures)),
      (.contentName, ofOption rule.contentName), (.patterns, ofList patterns)] where
  names := by simp
  known := by simp [Kind.fields]
  fits := by
    simp only [List.forall_mem_cons]
    exact ⟨eq_null_or_fits_ofOption _, Or.inr ⟨_, rfl⟩, eq_null_or_fits_ofCaptures _,
      Or.inr ⟨_, rfl⟩, eq_null_or_fits_ofCaptures _, eq_null_or_fits_ofCaptures _,
      eq_null_or_fits_ofOption _, eq_null_or_fits_ofList _, nofun⟩

theorem inner_of_mem_block {name opening openingCaptures closing closingCaptures captures
    contentName patterns vs : Value}
    (h : (Field.patterns, vs) ∈ [(Field.name, name), (.opening, opening),
      (.openingCaptures, openingCaptures), (.closing, closing),
      (.closingCaptures, closingCaptures), (.captures, captures), (.contentName, contentName),
      (.patterns, patterns)]) : vs = patterns := by
  simpa using h

theorem ofPatterns_eq_map (ps : List Pattern) : ofPatterns ps = ps.map ofPattern := by
  induction ps with
  | nil => rfl
  | cons p ps ih => rw [ofPatterns, ih, List.map_cons]

theorem isPartial_ofPattern (p : Pattern) : IsPartial (ofPattern p) := by
  induction p using Pattern.inductionOn with
  | matching rule =>
      refine .object (Or.inl rfl) (isFilled_matching rule) ?_
      intro vs hmem
      exact absurd ((isFilled_matching rule).mem_fields hmem) (by decide)
  | reference target => exact .reference target
  | absent rule =>
      refine .object (Or.inr rfl) (isFilled_block rule none) ?_
      intro vs hmem
      cases inner_of_mem_block hmem
  | block rule ps ih =>
      refine .object (Or.inr rfl) (isFilled_block rule (some (ofPatterns ps))) ?_
      intro vs hmem v hv
      cases inner_of_mem_block hmem
      rw [ofPatterns_eq_map] at hv
      rcases List.mem_map.mp hv with ⟨p, hp, rfl⟩
      exact ih p hp

theorem null_or_fits_default? {kind : Kind} (hkind : kind = .matching ∨ kind = .block) {f : Field}
    {v : Value} (h : kind.default? f = some v) : v = .null ∨ (contentOf f).Fits v := by
  rcases hkind with rfl | rfl
  · cases f with
    | regex => exact Or.inr ⟨"", (Option.some.inj h).symm⟩
    | _ => exact Or.inl (Option.some.inj h).symm
  · cases f with
    | opening | closing => cases h
    | _ => exact Or.inl (Option.some.inj h).symm

def filledIn (kind : Kind) (given : List (String × Value)) (f : Field) : Option Value :=
  ((given.find? fun e => e.1 == kind.key f).map (·.2)).or
    (((given.find? fun e => e.1 == f.label).map (·.2)).or (kind.default? f))

theorem fill_eq (kind : Kind) (given : List (String × Value)) :
    Value.fill kind given =
      .record kind (kind.fields.filterMap fun f => (filledIn kind given f).map fun v => (f, v)) :=
  rfl

theorem source_of_filledIn {kind : Kind} {given : List (String × Value)} {f : Field} {v : Value}
    (h : filledIn kind given f = some v) :
    (kind.key f, v) ∈ given ∨ (f.label, v) ∈ given ∨ kind.default? f = some v := by
  rcases Option.or_eq_some_iff.mp h with h | ⟨_, h⟩
  · exact Or.inl (Schema.Site.mem_of_find?_name h)
  rcases Option.or_eq_some_iff.mp h with h | ⟨_, h⟩
  · exact Or.inr (Or.inl (Schema.Site.mem_of_find?_name h))
  · exact Or.inr (Or.inr h)

/-- Patterns that are filled in without any check are partial patterns if what is given for
their fields is nothing or fits. -/
theorem isPartial_fill {kind : Kind} {given : List (String × Value)}
    (hkind : kind = .matching ∨ kind = .block)
    (hgiven : ∀ e ∈ given, ∀ f ∈ kind.fields, e.1 = kind.key f ∨ e.1 = f.label →
      e.2 = .null ∨ (contentOf f).Fits e.2)
    (hinner : ∀ vs, ("patterns", .list vs) ∈ given → ∀ v ∈ vs, IsPartial v) :
    IsPartial (Value.fill kind given) := by
  have hsource : ∀ f v,
      (f, v) ∈ kind.fields.filterMap (fun f => (filledIn kind given f).map fun v => (f, v)) →
        f ∈ kind.fields ∧ filledIn kind given f = some v := by
    intro f v hmem
    rcases List.mem_filterMap.mp hmem with ⟨g, hg, h⟩
    rcases Option.map_eq_some_iff.mp h with ⟨w, hw, heq⟩
    cases heq
    exact ⟨hg, hw⟩
  rw [fill_eq]
  refine .object hkind ⟨?_, fun e he => (hsource e.1 e.2 he).1, ?_⟩ ?_
  · refine (Kind.names_filterMap_sublist id _ kind.fields).nodup ?_
    rcases hkind with rfl | rfl <;> decide
  · rintro ⟨f, v⟩ hmem
    rcases hsource f v hmem with ⟨hf, hv⟩
    rcases source_of_filledIn hv with h | h | h
    · exact hgiven _ h f hf (Or.inl rfl)
    · exact hgiven _ h f hf (Or.inr rfl)
    · exact null_or_fits_default? hkind h
  · intro vs hmem
    have hdefault : kind.default? .patterns = some .null := by
      rcases hkind with rfl | rfl <;> rfl
    have hkey : kind.key .patterns = "patterns" := by
      rcases hkind with rfl | rfl <;> rfl
    rcases source_of_filledIn (hsource _ _ hmem).2 with h | h | h
    · exact hinner vs (hkey ▸ h)
    · exact hinner vs h
    · rw [hdefault] at h
      cases h

end Draft
end TextMate
