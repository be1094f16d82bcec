import TextMate.Proofs.Grammar.CaptureKeys
import TextMate.Proofs.Grammar.Codes
import TextMate.Proofs.Grammar.Place

/-!
# Group numbers

A capture is given to a group of a match, so the keys of captures should be
numbers.  The keys of a grammar are listed by the places of their patterns, by the
fields they stand under and by their order there.  A report goes through them in
this order, but takes more characters for digits than those of a number: all that
denote a digit in some script or style.  The main result says that the keys made
of such characters are the only ones of which a report should warn and does not.
-/

namespace TextMate

open Schema (groupFields)

namespace Text

/-!
## Numbers
-/

def numerals : List Char := "0123456789".toList

/-- A text of numerals that is not empty. -/
def IsNumber (s : String) : Prop :=
  s ≠ "" ∧ ∀ c ∈ s.toList, c ∈ numerals

/-- A text of characters that denote digits, not all of which are numerals: some of them belong to
another script or are raised, circled and the like. -/
def IsForeignNumber (s : String) : Prop :=
  s ≠ "" ∧ (∀ c ∈ s.toList, isDigit c = true) ∧ ∃ c ∈ s.toList, 0x80 ≤ c.toNat

-- `all` and `any` go through the text; a quantifier over characters would be decided by going
-- through all characters there are
instance (s : String) : Decidable (IsNumber s) :=
  decidable_of_iff (s ≠ "" ∧ (s.toList.all fun c => numerals.contains c) = true) (by
    simp [IsNumber])

instance (s : String) : Decidable (IsForeignNumber s) :=
  decidable_of_iff (s ≠ "" ∧ (s.toList.all isDigit) = true
    ∧ (s.toList.any fun c => 0x80 ≤ c.toNat) = true) (by
    simp [IsForeignNumber])

theorem isDigit_of_mem_numerals : ∀ c ∈ numerals, isDigit c = true := by
  have hall : (numerals.all fun c => isDigit c) = true := by decide
  exact List.all_eq_true.mp hall

theorem toNat_lt_of_mem_numerals : ∀ c ∈ numerals, c.toNat < 0x80 := by
  have hall : (numerals.all fun c => decide (c.toNat < 0x80)) = true := by decide
  intro c hc
  exact of_decide_eq_true (List.all_eq_true.mp hall c hc)

theorem mem_numerals_of_isDigit {c : Char} (h : isDigit c = true) (hlt : c.toNat < 0x80) :
    c ∈ numerals := by
  have hascii : ∀ n < 0x80, isDigit (Char.ofNat n) = true → Char.ofNat n ∈ numerals := by
    decide +kernel
  rw [← Char.ofNat_toNat c] at h ⊢
  exact hascii _ hlt h

theorem IsNumber.not_isForeignNumber {s : String} (h : IsNumber s) : ¬ IsForeignNumber s := by
  intro hforeign
  rcases hforeign.2.2 with ⟨c, hc, hle⟩
  have hlt := toNat_lt_of_mem_numerals c (h.2 c hc)
  omega

theorem isDigits_eq_true_iff (s : String) :
    isDigits s = true ↔ IsNumber s ∨ IsForeignNumber s := by
  have hdigits : isDigits s = true ↔ s ≠ "" ∧ ∀ c ∈ s.toList, isDigit c = true := by
    simp [isDigits]
  rw [hdigits]
  constructor
  · intro h
    by_cases hascii : ∀ c ∈ s.toList, c.toNat < 0x80
    · apply Or.inl
      constructor
      · exact h.1
      · intro c hc
        exact mem_numerals_of_isDigit (h.2 c hc) (hascii c hc)
    · push Not at hascii
      exact Or.inr ⟨h.1, h.2, hascii⟩
  · intro h
    rcases h with h | h
    · constructor
      · exact h.1
      · intro c hc
        exact isDigit_of_mem_numerals c (h.2 c hc)
    · exact ⟨h.1, h.2.1⟩

example : isDigits "²" = true ∧ IsForeignNumber "²" := by decide

end Text

/-!
## Keys
-/

/-- A key of captures, with the place of its pattern, the field it stands under and the number of
keys that stand there before it. -/
structure CaptureKey where
  place : Place
  field : Field
  number : Nat
  text : String

/-- The order of keys: by place, by field and by number. -/
def CaptureKey.Precedes (k l : CaptureKey) : Prop :=
  k.place.Precedes l.place
    ∨ (k.place = l.place
      ∧ (groupFields.idxOf k.field < groupFields.idxOf l.field
        ∨ (k.field = l.field ∧ k.number < l.number)))

namespace Pattern

def keysUnder (f : Field) (p : Pattern) : List String :=
  Report.keys (p.capturesUnder f)

def captureKeys (place : Place) (p : Pattern) : List CaptureKey :=
  groupFields.flatMap fun f => (p.keysUnder f).zipIdx.map fun k => ⟨place, f, k.2, k.1⟩

theorem mem_groupFields_of_keysUnder {f : Field} {p : Pattern} (h : p.keysUnder f ≠ []) :
    f ∈ groupFields := by
  by_contra hf
  apply h
  unfold keysUnder capturesUnder
  split
  · exact absurd (by decide) hf
  · exact absurd (by decide) hf
  · exact absurd (by decide) hf
  · exact absurd (by decide) hf
  · rfl

theorem mem_captureKeys_iff {place : Place} {p : Pattern} {k : CaptureKey} :
    k ∈ p.captureKeys place ↔
      k.place = place ∧ (p.keysUnder k.field)[k.number]? = some k.text := by
  simp only [captureKeys, List.mem_flatMap, List.mem_map]
  constructor
  · intro h
    rcases h with ⟨f, _, ⟨text, number⟩, hmem, rfl⟩
    exact ⟨rfl, List.mem_zipIdx_iff_getElem?.mp hmem⟩
  · intro h
    rcases h with ⟨rfl, hkey⟩
    have hfield : k.field ∈ groupFields :=
      mem_groupFields_of_keysUnder (List.ne_nil_of_mem (List.mem_of_getElem? hkey))
    exact ⟨k.field, hfield, (k.text, k.number), List.mem_zipIdx_iff_getElem?.mpr hkey, rfl⟩

theorem pairwise_captureKeys (place : Place) (p : Pattern) :
    (p.captureKeys place).Pairwise CaptureKey.Precedes := by
  have hfields : groupFields.Pairwise fun f f' => groupFields.idxOf f < groupFields.idxOf f' := by
    decide
  rw [captureKeys, List.pairwise_flatMap]
  constructor
  · intro f _
    rw [List.pairwise_map]
    apply (pairwise_zipIdx _ 0).imp
    intro k l hkl
    exact Or.inr ⟨rfl, Or.inr ⟨rfl, hkl⟩⟩
  · apply hfields.imp
    intro f f' hff' k hk l hl
    rcases List.mem_map.mp hk with ⟨_, _, rfl⟩
    rcases List.mem_map.mp hl with ⟨_, _, rfl⟩
    exact Or.inr ⟨rfl, Or.inl hff'⟩

end Pattern

namespace Grammar

def captureKeys (g : Grammar) : List CaptureKey :=
  g.visits.flatMap fun v => v.2.captureKeys v.1

theorem mem_captureKeys_iff {g : Grammar} {k : CaptureKey} :
    k ∈ g.captureKeys ↔
      ∃ p, g.at? k.place = some p ∧ (p.keysUnder k.field)[k.number]? = some k.text := by
  simp only [captureKeys, List.mem_flatMap, Pattern.mem_captureKeys_iff]
  constructor
  · intro h
    rcases h with ⟨⟨place, p⟩, hv, rfl, hkey⟩
    exact ⟨p, (g.mem_visits_iff _ _).mp hv, hkey⟩
  · intro h
    rcases h with ⟨p, hp, hkey⟩
    exact ⟨(k.place, p), (g.mem_visits_iff _ _).mpr hp, rfl, hkey⟩

theorem pairwise_captureKeys (g : Grammar) : g.captureKeys.Pairwise CaptureKey.Precedes := by
  rw [captureKeys, List.pairwise_flatMap]
  constructor
  · intro v _
    exact v.2.pairwise_captureKeys v.1
  · apply g.pairwise_visits.imp
    intro v w hvw k hk l hl
    have hplace := (Pattern.mem_captureKeys_iff.mp hk).1
    have hother := (Pattern.mem_captureKeys_iff.mp hl).1
    rw [← hplace, ← hother] at hvw
    exact Or.inl hvw

def keyWarning (g : Grammar) (k : CaptureKey) : Issue where
  severity := .warning
  code := "INVALID_CAPTURE_KEY"
  message := "Capture key is not a group number: " ++ Text.quoted k.text
  location := some (g.location k.place ++ "/" ++ k.field.documentKey ++ "/" ++ k.text)
  subject := some (.text k.text)

end Grammar

/-!
## Warnings
-/

namespace Report

theorem filter_captureKey_ofCaptureKeys (location : String) (names : List String) :
    (ofCaptureKeys location names).filter (fun i => i.code == "INVALID_CAPTURE_KEY") =
      ofCaptureKeys location names := by
  rw [List.filter_eq_self]
  intro i hi
  rcases List.mem_map.mp hi with ⟨key, _, rfl⟩
  rfl

theorem filter_captureKey_ofTarget (defines : String → Bool) (location target : String) :
    (ofTarget defines location target).filter (fun i => i.code == "INVALID_CAPTURE_KEY") = [] := by
  apply filter_code_eq_nil
  intro i hi
  rcases mem_ofTarget_cases hi with ⟨_, rfl⟩ | rfl | rfl
  · exact (by decide : "EMPTY_INCLUDE" ≠ "INVALID_CAPTURE_KEY")
  · exact (by decide : Issue.danglingCode ≠ "INVALID_CAPTURE_KEY")
  · exact (by decide : "DOUBLE_EXTERNAL_MARKER" ≠ "INVALID_CAPTURE_KEY")

theorem filter_captureKey_ofPattern (defines : String → Bool) (location : String) (p : Pattern) :
    (ofPattern defines location p).filter (fun i => i.code == "INVALID_CAPTURE_KEY") =
      groupFields.flatMap fun f =>
        ofCaptureKeys (location ++ ("/" ++ f.documentKey)) (p.keysUnder f) := by
  cases p with
  | reference target =>
      rw [ofPattern, filter_captureKey_ofTarget]
      rfl
  | matching rule =>
      rw [ofPattern, filter_captureKey_ofCaptureKeys]
      exact (List.append_nil _).symm
  | block rule ps =>
      rw [ofPattern, List.filter_append, List.filter_append, filter_captureKey_ofCaptureKeys,
        filter_captureKey_ofCaptureKeys, filter_captureKey_ofCaptureKeys, List.append_assoc]
      exact congrArg _ (congrArg _ (List.append_nil _).symm)

theorem ofCaptureKeys_eq_map_keyWarning (g : Grammar) (place : Place) (f : Field)
    (names : List String) :
    ofCaptureKeys (g.location place ++ ("/" ++ f.documentKey)) names =
      ((names.zipIdx.map fun k => CaptureKey.mk place f k.2 k.1).filter
        fun k => !Text.isDigits k.text).map g.keyWarning := by
  rw [ofCaptureKeys, List.filter_map, List.map_map]
  conv_lhs => rw [← List.zipIdx_map_fst 0 names]
  rw [List.filter_map, List.map_map]
  apply List.map_congr_left
  intro k _
  simp only [Function.comp_apply, Issue.captureKey, Grammar.keyWarning, String.append_assoc]

theorem withCode_captureKey (g : Grammar) :
    g.report.withCode "INVALID_CAPTURE_KEY" =
      (g.captureKeys.filter fun k => !Text.isDigits k.text).map g.keyWarning := by
  rw [withCode_of_mem_patternCodes g (by decide), g.walk_eq_visits, List.flatMap_map,
    Grammar.captureKeys, List.filter_flatMap, List.map_flatMap]
  apply List.flatMap_congr
  intro v _
  rw [filter_captureKey_ofPattern, Pattern.captureKeys, List.filter_flatMap, List.map_flatMap]
  apply List.flatMap_congr
  intro f _
  exact ofCaptureKeys_eq_map_keyWarning g v.1 f (v.2.keysUnder f)

/-- A report goes through all keys of captures, in order, and warns of those that are neither
numbers nor foreign numbers.  So it warns of all keys that are no numbers, in order and of each
once, exactly if no key is a foreign number. -/
theorem capture_key_warnings_miss_foreign_numbers_only (g : Grammar) :
    (∀ k, k ∈ g.captureKeys ↔
        ∃ p, g.at? k.place = some p ∧ (p.keysUnder k.field)[k.number]? = some k.text)
      ∧ g.captureKeys.Pairwise CaptureKey.Precedes
      ∧ g.report.withCode "INVALID_CAPTURE_KEY" =
          (g.captureKeys.filter fun k =>
            ¬ Text.IsNumber k.text ∧ ¬ Text.IsForeignNumber k.text).map g.keyWarning
      ∧ (g.report.withCode "INVALID_CAPTURE_KEY" =
            (g.captureKeys.filter fun k => ¬ Text.IsNumber k.text).map g.keyWarning ↔
          ∀ k ∈ g.captureKeys, ¬ Text.IsForeignNumber k.text) := by
  have hwarned : g.report.withCode "INVALID_CAPTURE_KEY" =
      (g.captureKeys.filter fun k =>
        ¬ Text.IsNumber k.text ∧ ¬ Text.IsForeignNumber k.text).map g.keyWarning := by
    rw [withCode_captureKey]
    congr 2
    funext k
    rw [Bool.eq_iff_iff, Bool.not_eq_true', ← Bool.not_eq_true, Text.isDigits_eq_true_iff,
      not_or, decide_eq_true_iff]
  constructor
  · intro k
    exact Grammar.mem_captureKeys_iff
  constructor
  · exact g.pairwise_captureKeys
  constructor
  · exact hwarned
  rw [hwarned]
  constructor
  · intro hsame k hk hforeign
    have hexpected : g.keyWarning k ∈
        (g.captureKeys.filter fun k => ¬ Text.IsNumber k.text).map g.keyWarning := by
      apply List.mem_map_of_mem
      rw [List.mem_filter, decide_eq_true_iff]
      exact ⟨hk, fun hnumber => hnumber.not_isForeignNumber hforeign⟩
    rw [← hsame] at hexpected
    rcases List.mem_map.mp hexpected with ⟨l, hl, heq⟩
    -- a warning tells its key
    have htext : l.text = k.text := by
      have hsubject := congrArg Issue.subject heq
      simpa [Grammar.keyWarning] using hsubject
    rw [List.mem_filter, decide_eq_true_iff, htext] at hl
    exact hl.2.2 hforeign
  · intro hnone
    congr 1
    apply List.filter_congr
    intro k hk
    simp [hnone k hk]

end Report
end TextMate
