import TextMate.Proofs.Draft.Partial

/-!
# Taking marks away from drafts

The transformation that takes one mark from every reference notes what it meets
and may stop, but it does not stop at partial patterns.  What it makes of them is
written without a monad here: it changes the targets of references and nothing
else.
-/

namespace TextMate
namespace Draft

/-!
## The transformation without a monad
-/

def unmarkedText : Value → Value
  | .text target => .text (Include.unmark target)
  | v => v

mutual

/-- The value with one mark taken from the target of every reference in it. -/
def unmarked : Value → Value
  | .record kind fields => .record kind (unmarkedFields kind fields)
  | .dict es => .dict (unmarkedEntries es)
  | .list vs => .list (unmarkedItems vs)
  | v => v

def unmarkedFields (kind : Kind) : List (Field × Value) → List (Field × Value)
  | [] => []
  | (field, v) :: fields =>
      (field, if kind == .reference then unmarkedText v else unmarked v)
        :: unmarkedFields kind fields

def unmarkedEntries : List (Value × Value) → List (Value × Value)
  | [] => []
  | (key, v) :: es => (key, unmarked v) :: unmarkedEntries es

def unmarkedItems : List Value → List Value
  | [] => []
  | v :: vs => unmarked v :: unmarkedItems vs

end

theorem unmarkedItems_eq_map (vs : List Value) : unmarkedItems vs = vs.map unmarked := by
  induction vs with
  | nil => rfl
  | cons v vs ih => rw [unmarkedItems, ih, List.map_cons]

theorem unmarkedEntries_eq_map (es : List (Value × Value)) :
    unmarkedEntries es = es.map fun e => (e.1, unmarked e.2) := by
  induction es with
  | nil => rfl
  | cons e es ih => rw [unmarkedEntries, ih, List.map_cons]

theorem unmarkedFields_eq_map {kind : Kind} (h : kind ≠ .reference)
    (fields : List (Field × Value)) :
    unmarkedFields kind fields = fields.map fun f => (f.1, unmarked f.2) := by
  induction fields with
  | nil => rfl
  | cons f fields ih =>
      rw [unmarkedFields, ih, List.map_cons, if_neg (by simpa using h)]

theorem unmarked_list (vs : List Value) : unmarked (.list vs) = .list (vs.map unmarked) := by
  rw [unmarked, unmarkedItems_eq_map]

theorem unmarked_ofNamed (es : List (String × Value)) :
    unmarked (ofNamed es) = ofNamed (es.map fun e => (e.1, unmarked e.2)) := by
  rw [ofNamed, unmarked, unmarkedEntries_eq_map, ofNamed, List.map_map, List.map_map]
  rfl

theorem unmarked_of_fits {content : Content} {v : Value} (hpatterns : content ≠ .patterns)
    (hentries : content ≠ .entries) (h : v = .null ∨ content.Fits v) : unmarked v = v := by
  rcases h with rfl | h
  · rfl
  cases content with
  | text =>
      rcases h with ⟨s, rfl⟩
      rfl
  | texts =>
      rcases h with ⟨types, rfl⟩
      rw [unmarked_list, List.map_map]
      rfl
  | captures =>
      rcases h with ⟨cs, rfl⟩
      rw [unmarked_ofNamed, List.map_map]
      rfl
  | patterns => exact absurd rfl hpatterns
  | entries => exact absurd rfl hentries
  | count =>
      rcases h with ⟨n, rfl⟩
      rfl

/-!
## Runs of the transformation
-/

/-- Work that does not stop and has this result, whatever was noted before. -/
def Yields {α : Type} (w : Work α) (a : α) : Prop :=
  ∀ met, ∃ met', w met = .ok (a, met')

variable {α β : Type}

theorem yields_pure (a : α) : Yields (pure a) a :=
  fun met => ⟨met, rfl⟩

theorem Yields.bind {w : Work α} {a : α} {k : α → Work β} {b : β} (hw : Yields w a)
    (hk : Yields (k a) b) : Yields (w >>= k) b := by
  intro met
  rcases hw met with ⟨met', hmet'⟩
  rcases hk met' with ⟨met'', hmet''⟩
  refine ⟨met'', ?_⟩
  show (w met >>= fun r => k r.1 r.2) = _
  rw [hmet']
  exact hmet''

theorem Yields.map {w : Work α} {a : α} (k : α → β) (hw : Yields w a) :
    Yields (k <$> w) (k a) := by
  intro met
  rcases hw met with ⟨met', hmet'⟩
  refine ⟨met', ?_⟩
  show (w met >>= fun r => pure (k r.1, r.2)) = _
  rw [hmet']
  rfl

theorem yields_apply {f : Value → Except Fault Value} {v w : Value} (h : f v = .ok w) :
    Yields (apply f v) w := by
  intro met
  refine ⟨v :: met, ?_⟩
  unfold apply
  rw [h]
  rfl

theorem yields_transformItems {vs : List Value}
    (h : ∀ v ∈ vs, ∀ location, Yields (transform unmarkTarget location v) (unmarked v))
    (base : String) (start : Nat) :
    Yields (transformItems unmarkTarget base start vs) (vs.map unmarked) := by
  induction vs generalizing start with
  | nil => exact yields_pure []
  | cons v vs ih =>
      exact (h v List.mem_cons_self _).bind
        ((ih (fun w hw => h w (List.mem_cons_of_mem _ hw)) _).bind (yields_pure _))

theorem yields_transformSlot {v : Value} (hfits : v = .null ∨ Content.patterns.Fits v)
    (hinner : ∀ vs, v = .list vs →
      ∀ w ∈ vs, ∀ location, Yields (transform unmarkTarget location w) (unmarked w))
    (base : String) : Yields (transformSlot unmarkTarget base v) (unmarked v) := by
  rcases hfits with rfl | ⟨vs, rfl⟩
  · exact yields_pure _
  · rw [unmarked_list]
    exact (yields_transformItems (hinner vs rfl) base 0).bind (yields_pure _)

theorem yields_transformFields {fields : List (Field × Value)}
    (hfits : ∀ f v, (f, v) ∈ fields → f ≠ .patterns → unmarked v = v)
    (hslot : ∀ v, (.patterns, v) ∈ fields →
      ∀ base, Yields (transformSlot unmarkTarget base v) (unmarked v))
    (location : String) :
    Yields (transformFields unmarkTarget location fields) (unmarkedFields .block fields) := by
  rw [unmarkedFields_eq_map (by decide)]
  induction fields with
  | nil => exact yields_pure []
  | cons field fields ih =>
      rcases field with ⟨f, v⟩
      have hrest := ih (fun g w hw => hfits g w (List.mem_cons_of_mem _ hw))
        fun w hw => hslot w (List.mem_cons_of_mem _ hw)
      have hbehind : Yields (transformFields unmarkTarget location fields >>= fun fs =>
          pure ((f, unmarked v) :: fs))
          ((f, unmarked v) :: fields.map fun e => (e.1, unmarked e.2)) :=
        hrest.bind (yields_pure _)
      by_cases hf : f = .patterns
      · subst hf
        exact Yields.bind (hslot v List.mem_cons_self _) hbehind
      · have hv := hfits f v List.mem_cons_self hf
        rw [transformFields]
        simp only [beq_iff_eq, if_neg hf, List.map_cons, pure_bind]
        rw [hv] at hbehind ⊢
        exact hbehind

theorem IsFilled.unmarked_of_ne {kind : Kind} {fields : List (Field × Value)}
    (h : IsFilled kind fields) (hentries : Field.repository ∉ kind.fields) {f : Field} {v : Value}
    (hmem : (f, v) ∈ fields) (hpatterns : f ≠ .patterns) : unmarked v = v := by
  refine unmarked_of_fits ?_ ?_ (h.null_or_fits hmem)
  · exact fun hcontent => hpatterns (contentOf_eq_patterns hcontent)
  · exact fun hcontent => hentries (contentOf_eq_entries hcontent ▸ h.mem_fields hmem)

theorem IsPartial.yields_transform {v : Value} (h : IsPartial v) (location : String) :
    Yields (transform unmarkTarget location v) (unmarked v) := by
  induction h generalizing location with
  | reference target => exact yields_apply (f := unmarkTarget) rfl
  | @object kind fields hkind hfilled hinner ih =>
      rcases hkind with rfl | rfl
      · have hsame : unmarked (.record .matching fields) = .record .matching fields := by
          rw [unmarked, unmarkedFields_eq_map (by decide)]
          congr 1
          refine (List.map_congr_left ?_).trans (List.map_id _)
          rintro ⟨f, w⟩ hmem
          have hf : f ≠ .patterns := by
            rintro rfl
            exact absurd (hfilled.mem_fields hmem) (by decide)
          rw [hfilled.unmarked_of_ne (by decide) hmem hf]
          rfl
        rw [hsame]
        exact yields_apply rfl
      · have hslot : ∀ w, (.patterns, w) ∈ fields →
            ∀ base, Yields (transformSlot unmarkTarget base w) (unmarked w) :=
          fun w hmem => yields_transformSlot (hfilled.null_or_fits hmem)
            fun vs heq u hu => ih vs (heq ▸ hmem) u hu
        have hfields := yields_transformFields
          (fun f w hmem hf => hfilled.unmarked_of_ne (by decide) hmem hf) hslot location
        exact hfields.bind (yields_apply rfl)

theorem yields_transformEntries {es : List (String × Value)}
    (h : ∀ e ∈ es, ∀ location, Yields (transform unmarkTarget location e.2) (unmarked e.2)) :
    Yields (transformEntries unmarkTarget (es.map fun e => (.text e.1, e.2)))
      ((es.map fun e => (e.1, unmarked e.2)).map fun e => (.text e.1, e.2)) := by
  induction es with
  | nil => exact yields_pure []
  | cons e es ih =>
      refine Yields.bind (h e List.mem_cons_self _) ?_
      refine Yields.bind (ih fun d hd => h d (List.mem_cons_of_mem _ hd)) ?_
      exact yields_pure _

/-!
## Grammars with partial patterns
-/

@[simp] theorem unmarked_ofOption (s : Option String) : unmarked (ofOption s) = ofOption s := by
  cases s <;> rfl

@[simp] theorem unmarked_ofList (vs : Option (List Value)) :
    unmarked (ofList vs) = ofList (vs.map fun vs => vs.map unmarked) := by
  cases vs with
  | none => rfl
  | some vs => exact unmarked_list vs

theorem unmarked_grammar (h : Header) (patterns : Option (List Value))
    (repository : Option (List (String × Value))) :
    unmarked (grammar h patterns repository) =
      grammar h (patterns.map fun vs => vs.map unmarked)
        (repository.map fun es => es.map fun e => (e.1, unmarked e.2)) := by
  have htypes : (h.fileTypes.map fun types => types.map Value.text).map
      (fun vs => vs.map unmarked) = h.fileTypes.map fun types => types.map Value.text := by
    rw [Option.map_map]
    congr 1
    funext types
    rw [Function.comp_apply, List.map_map]
    rfl
  have htext : ∀ s, unmarked (.text s) = .text s := fun s => rfl
  cases repository with
  | none =>
      unfold grammar
      rw [unmarked, unmarkedFields_eq_map (by decide)]
      simp only [List.map_cons, List.map_nil, unmarked_ofOption, unmarked_ofList, htypes, htext]
      rfl
  | some es =>
      unfold grammar
      rw [unmarked, unmarkedFields_eq_map (by decide)]
      simp only [List.map_cons, List.map_nil, unmarked_ofOption, unmarked_ofList, htypes, htext,
        unmarked_ofNamed]
      rfl

section Grammar

variable {h : Header} {patterns : Option (List Value)}
  {repository : Option (List (String × Value))}

theorem yields_transformGrammar (hpatterns : ∀ v ∈ patterns.getD [], IsPartial v)
    (hrepository : ∀ e ∈ repository.getD [], IsPartial e.2) :
    Yields (transformGrammar unmarkTarget (grammar h patterns repository))
      (unmarked (grammar h patterns repository)) := by
  have hslot : Yields (transformSlot unmarkTarget "patterns/" (ofList patterns))
      (ofList (patterns.map fun vs => vs.map unmarked)) := by
    rw [← unmarked_ofList]
    refine yields_transformSlot (eq_null_or_fits_ofList patterns) ?_ _
    intro vs heq v hv location
    refine (hpatterns v ?_).yields_transform location
    cases patterns with
    | none => cases heq
    | some ws =>
        cases heq
        exact hv
  rw [unmarked_grammar]
  refine Yields.bind (a := ofList patterns) (fun met => ⟨met, rfl⟩) ?_
  refine Yields.bind hslot ?_
  cases repository with
  | none =>
      refine Yields.bind (a := .null) (fun met => ⟨met, rfl⟩) ?_
      exact yields_pure _
  | some es =>
      have hentries := yields_transformEntries fun (e : String × Value) (he : e ∈ es) location =>
        (hrepository e he).yields_transform location
      refine Yields.bind (a := ofNamed es) (fun met => ⟨met, rfl⟩) ?_
      refine Yields.bind (hentries.map Value.dict) ?_
      exact yields_pure _

theorem ok_of_bind {ε α β : Type} {x : Except ε α} {k : α → Except ε β} {b : β}
    (hok : (x >>= k) = .ok b) : ∃ a, x = .ok a ∧ k a = .ok b := by
  cases x with
  | error e => cases hok
  | ok a => exact ⟨a, rfl, hok⟩

theorem document_eq_plain {doc : Value} (hpatterns : ∀ v ∈ patterns.getD [], IsPartial v)
    (hrepository : ∀ e ∈ repository.getD [], IsPartial e.2)
    (hdoc : document (grammar h patterns repository) = .ok doc) :
    doc = plain (unmarked (grammar h patterns repository)) := by
  have hunmarked : unmarkIncludes (grammar h patterns repository) =
      .ok (unmarked (grammar h patterns repository)) := by
    rcases yields_transformGrammar hpatterns hrepository [] with ⟨met, hmet⟩
    unfold unmarkIncludes mapGrammar
    rw [StateT.run, hmet]
    rfl
  rcases ok_of_bind hdoc with ⟨⟨g, found⟩, hprepare, hplain⟩
  cases hplain
  rcases ok_of_bind hprepare with ⟨found', _, hrest⟩
  split at hrest
  · cases hrest
  · rcases ok_of_bind hrest with ⟨g', hg', heq⟩
    rw [hunmarked] at hg'
    cases hg'
    cases heq
    rfl

end Grammar

end Draft
end TextMate
