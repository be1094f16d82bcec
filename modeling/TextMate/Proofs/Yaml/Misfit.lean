import Mathlib.Algebra.Group.Int.Defs
import Mathlib.Data.Finset.Card
import TextMate.Proofs.Yaml.Faults
import TextMate.Yaml.Object

/-!
# Scalars without form

A tag that an author gives asks for a text of some form.  Where the text does
not have it, most types say so; but some texts are not even looked at as texts of
the type, and those are listed here.  A text may also be missing altogether, where
default values go round in a circle.
-/

namespace TextMate
namespace Yaml

open Text Decimal

/-!
## Default values
-/

namespace Nodes

def default? (nodes : Nodes) (n : Nat) : Option Nat :=
  match (nodes.node n).content with
  | .scalar _ => none
  | content =>
      (content.entries.find? fun e => (nodes.node e.1).tag == .default).map (·.2)

def defaultAt? (nodes : Nodes) : Nat → Nat → Option Nat
  | 0, n => some n
  | k + 1, n => (nodes.default? n).bind (nodes.defaultAt? k)

variable {nodes : Nodes} {n m : Nat}

theorem lt_size_of_default? (h : nodes.default? n = some m) : n < nodes.size := by
  rcases Nat.lt_or_ge n nodes.size with hlt | hge
  · exact hlt
  · have hnode : nodes.node n = default := by
      rw [node, Array.getD_eq_getD_getElem?, Array.getElem?_eq_none hge]
      rfl
    rw [default?, hnode] at h
    cases h

theorem defaultAt?_add (j k n : Nat) :
    nodes.defaultAt? (j + k) n = (nodes.defaultAt? j n).bind (nodes.defaultAt? k) := by
  induction j generalizing n with
  | zero => rw [Nat.zero_add]; rfl
  | succ j ih =>
      rw [Nat.succ_add, defaultAt?, defaultAt?]
      cases nodes.default? n with
      | none => rfl
      | some m => exact ih m

theorem defaultAt?_isSome_of_le {j k : Nat} (h : (nodes.defaultAt? k n).isSome) (hj : j ≤ k) :
    (nodes.defaultAt? j n).isSome := by
  rw [← Nat.add_sub_of_le hj, defaultAt?_add] at h
  cases hat : nodes.defaultAt? j n with
  | none =>
      rw [hat] at h
      cases h
  | some m => rfl

/-- Default values that follow one another without end. -/
def IsEndless (nodes : Nodes) (n : Nat) : Prop :=
  ∀ k, (nodes.defaultAt? k n).isSome

/-- The text of a scalar, or of a mapping that takes its text from others. -/
def HasText (nodes : Nodes) (n : Nat) (codes : Codes) : Prop :=
  ∃ k m, nodes.defaultAt? k n = some m ∧ (nodes.node m).content = .scalar codes

/-- Where more default values follow one another than there are nodes, one of them comes again. -/
theorem exists_defaultAt?_eq (h : (nodes.defaultAt? (nodes.size + 1) n).isSome) :
    ∃ i j, i < j ∧ j ≤ nodes.size ∧ nodes.defaultAt? i n = nodes.defaultAt? j n := by
  have hsome : ∀ k ≤ nodes.size, ∃ m, nodes.defaultAt? k n = some m ∧ m < nodes.size := by
    intro k hk
    have hnext := defaultAt?_isSome_of_le h (Nat.succ_le_succ hk)
    rw [Nat.succ_eq_add_one, defaultAt?_add] at hnext
    cases hat : nodes.defaultAt? k n with
    | none =>
        rw [hat] at hnext
        cases hnext
    | some m =>
        refine ⟨m, rfl, ?_⟩
        cases hm : nodes.default? m with
        | none => simp [hat, defaultAt?, hm] at hnext
        | some m' => exact lt_size_of_default? hm
  have hmaps : ∀ k ∈ Finset.range (nodes.size + 1),
      (nodes.defaultAt? k n).getD 0 ∈ Finset.range nodes.size := by
    intro k hk
    rcases hsome k (Nat.lt_succ_iff.mp (Finset.mem_range.mp hk)) with ⟨m, hm, hlt⟩
    rw [hm]
    exact Finset.mem_range.mpr hlt
  have hcard : (Finset.range nodes.size).card < (Finset.range (nodes.size + 1)).card := by
    rw [Finset.card_range, Finset.card_range]
    exact Nat.lt_succ_self _
  rcases Finset.exists_ne_map_eq_of_card_lt_of_maps_to hcard hmaps with ⟨i, hi, j, hj, hne, heq⟩
  have hi := Nat.lt_succ_iff.mp (Finset.mem_range.mp hi)
  have hj := Nat.lt_succ_iff.mp (Finset.mem_range.mp hj)
  have hsame : nodes.defaultAt? i n = nodes.defaultAt? j n := by
    rcases hsome i hi with ⟨a, ha, _⟩
    rcases hsome j hj with ⟨b, hb, _⟩
    rw [ha, hb] at heq ⊢
    exact congrArg some heq
  rcases Nat.lt_or_gt_of_ne hne with hlt | hgt
  · exact ⟨i, j, hlt, hj, hsame⟩
  · exact ⟨j, i, hgt, hi, hsame.symm⟩

/-- Default values that follow one another more often than there are nodes do so without end. -/
theorem isEndless_of_isSome (h : (nodes.defaultAt? (nodes.size + 1) n).isSome) :
    nodes.IsEndless n := by
  rcases exists_defaultAt?_eq h with ⟨i, j, hlt, hj, hsame⟩
  intro k
  induction k using Nat.strongRecOn with
  | ind k ih =>
      rcases Nat.le_total k j with hle | hge
      · exact defaultAt?_isSome_of_le h (by omega)
      · -- behind the second time, things are as behind the first
        have hback : nodes.defaultAt? k n = nodes.defaultAt? (i + (k - j)) n := by
          rw [defaultAt?_add, hsame, ← defaultAt?_add, Nat.add_sub_of_le hge]
        rw [hback]
        rcases Nat.lt_or_ge (i + (k - j)) k with hlt' | hge'
        · exact ih _ hlt'
        · omega

theorem scalarCodes_of_default? {fuel : Nat} (h : nodes.default? n = some m) :
    nodes.scalarCodes (fuel + 1) n = nodes.scalarCodes fuel m := by
  rw [default?] at h
  rw [scalarCodes]
  split at h
  · cases h
  next hscalar =>
    rcases Option.map_eq_some_iff.mp h with ⟨e, he, rfl⟩
    cases hcontent : (nodes.node n).content with
    | scalar codes => exact absurd hcontent (hscalar codes)
    | sequence items =>
        rw [hcontent] at he
        cases he
    | mapping entries =>
        rw [hcontent] at he
        simp only [he]

theorem concludes_scalarCodes_of_none {fuel : Nat} (h : nodes.default? n = none) :
    Concludes (fun fault => fault.isFormless = false)
      (fun codes => (nodes.node n).content = .scalar codes) (nodes.scalarCodes (fuel + 1) n) := by
  rw [default?] at h
  rw [scalarCodes]
  split
  next hcontent => exact hcontent
  next hscalar =>
    split at h
    next hcontent => exact absurd hcontent (hscalar _)
    · rw [Option.map_eq_none_iff.mp h]
      rfl

theorem concludes_scalarCodes (nodes : Nodes) (fuel n : Nat) :
    Concludes
      (FormlessFor fun fault => fault = .endlessDefault ∧ (nodes.defaultAt? fuel n).isSome)
      (nodes.HasText n) (nodes.scalarCodes fuel n) := by
  induction fuel generalizing n with
  | zero => exact fun _ => ⟨rfl, rfl⟩
  | succ fuel ih =>
      cases hm : nodes.default? n with
      | none =>
          have hnone := @concludes_scalarCodes_of_none nodes n fuel hm
          cases hcodes : nodes.scalarCodes (fuel + 1) n with
          | error fault =>
              exact concludes_error (formlessFor_of_formed (hnone.of_error hcodes))
          | ok codes => exact ⟨0, n, rfl, hnone.of_ok hcodes⟩
      | some m =>
          have hstep : ∀ k, nodes.defaultAt? (k + 1) n = nodes.defaultAt? k m := by
            intro k
            rw [defaultAt?, hm]
            rfl
          rw [scalarCodes_of_default? hm, hstep]
          refine (ih m).mono fun codes hcodes => ?_
          rcases hcodes with ⟨k, m', hat, hcontent⟩
          exact ⟨k + 1, m', (hstep k).trans hat, hcontent⟩

end Nodes
/-!
## Texts
-/

def truthWords : List String :=
  ["yes", "true", "on", "no", "false", "off"]

/-- What the text of a scalar is where its type does not even look at it: no word for a truth
value, no character of a number, or a number in more than 174 parts of sixty, the last of which
no floating-point number counts. -/
inductive Misread (codes : Codes) : Tag → Fault → Prop where
  | truth (h : ∀ word ∈ truthWords, Codes.ofChars word.toList ≠ codes.lowercase) :
      Misread codes .bool (.notBool codes.lowercase)
  | whole (h : (withoutUnderscores codes).chars ∈ [[], ['-'], ['+']]) :
      Misread codes .int .emptyNumeral
  | pointed (h : (withoutUnderscores codes).lowercase = []) : Misread codes .float .emptyNumeral
  | sixtieths (h : 174 ≤ (withoutUnderscores codes).lowercase.count ':'.toNat) :
      Misread codes .float .largeFactor

section Texts

variable {codes : Codes} {tag : Tag}

theorem Misread.isFormless {fault : Fault} (h : Misread codes tag fault) :
    fault.isFormless = true := by
  cases h with
  | truth _ => rfl
  | whole _ => rfl
  | pointed _ => rfl
  | sixtieths _ => rfl

theorem concludes_bool (codes : Codes) :
    Concludes (FormlessFor (Misread codes .bool)) (fun _ => True) (boolOfCodes codes) := by
  rw [boolOfCodes]
  refine concludes_ite (fun _ => trivial) fun hyes => concludes_ite (fun _ => trivial) fun hno => ?_
  refine fun _ => .truth fun word hword heq => ?_
  rw [Bool.not_eq_true, List.any_eq_false] at hyes hno
  have hword : word ∈ ["yes", "true", "on"] ++ ["no", "false", "off"] := hword
  rcases List.mem_append.mp hword with hmem | hmem
  · exact hyes word hmem (beq_iff_eq.mpr heq)
  · exact hno word hmem (beq_iff_eq.mpr heq)

theorem concludes_intIn (base : Nat) (part : Codes) :
    Concludes (FormlessFor (Misread codes tag)) (fun _ => True) (intIn base part) := by
  rw [intIn]
  split
  · trivial
  · exact formlessFor_of_formed rfl
  · exact formlessFor_of_formed rfl

theorem concludes_floatIn (part : Codes) :
    Concludes (FormlessFor (Misread codes tag)) (fun _ => True) (floatIn part) := by
  rw [floatIn]
  split
  · trivial
  · exact formlessFor_of_formed rfl

theorem concludes_signedBody (codes : Codes) :
    Concludes (fun fault => fault = .emptyNumeral ∧ codes.chars = [])
      (fun v => v.2 <:+ codes ∧ (v.2.chars = [] → codes.chars ∈ [['-'], ['+']]))
      (signedBody codes) := by
  have hdrop : ∀ {sign : Char} {rest : List Char}, codes.chars = sign :: rest →
      Codes.chars (codes.drop 1) = [] → codes.chars = [sign] := by
    intro sign rest hchars hnil
    unfold Codes.chars at hchars hnil ⊢
    rw [List.map_drop, hchars, List.drop_one, List.tail_cons] at hnil
    rw [hchars, hnil]
  rw [signedBody]
  split
  next hnil => exact ⟨rfl, hnil⟩
  next rest hchars =>
    exact ⟨List.drop_suffix 1 codes, fun hnil => by simp [hdrop hchars hnil]⟩
  next rest hchars =>
    exact ⟨List.drop_suffix 1 codes, fun hnil => by simp [hdrop hchars hnil]⟩
  next hne _ _ => exact ⟨List.suffix_refl _, fun hnil => absurd hnil hne⟩

theorem concludes_int (codes : Codes) :
    Concludes (FormlessFor (Misread codes .int)) (fun _ => True) (intOfCodes codes) := by
  rw [intOfCodes]
  refine ((concludes_signedBody _).imp fun fault hfault => ?_).bind fun v hv => ?_
  · rcases hfault with ⟨rfl, hnil⟩
    refine fun _ => .whole ?_
    rw [hnil]
    exact List.mem_cons_self
  · dsimp only
    split
    next hnil => exact fun _ => .whole (List.mem_cons_of_mem _ (hv.2 hnil))
    · trivial
    · exact (concludes_intIn _ _).bind fun _ _ => trivial
    · exact (concludes_intIn _ _).bind fun _ _ => trivial
    · exact (concludes_intIn _ _).bind fun _ _ => trivial
    · exact (concludes_mapM fun part _ => concludes_intIn 10 part).bind fun _ _ => trivial

theorem length_sixtiethParts (codes : Codes) :
    (sixtiethParts codes).length = codes.count ':'.toNat + 1 := by
  rw [sixtiethParts]
  induction codes with
  | nil => rfl
  | cons code codes ih =>
      rw [List.splitOn] at ih ⊢
      rw [List.splitOnP_cons_eq_if_modifyHead, List.count_cons]
      split
      · rw [List.length_cons, ih]
      · rw [List.length_modifyHead, ih, Nat.add_zero]

/-- The powers of sixty up to a limit are within the range of floating-point numbers. -/
theorem ofInt_pow_isFinite {k : Nat} (hk : k < 174) :
    ∃ negative m e, Binary64.ofInt (60 ^ k) = .finite negative m e := by
  have hall : ∀ k < 174, Binary64.ofInt (60 ^ k) ≠ .nan
      ∧ ∀ negative, Binary64.ofInt (60 ^ k) ≠ .infinite negative := by
    decide +kernel
  cases hx : Binary64.ofInt (60 ^ k) with
  | nan => exact absurd hx (hall k hk).1
  | infinite negative => exact absurd hx ((hall k hk).2 negative)
  | finite negative m e => exact ⟨negative, m, e, rfl⟩

theorem concludes_sixtieths (parts : List Binary64) (k : Nat) (sum : Binary64) :
    Concludes (fun fault => fault = .largeFactor ∧ 174 < k + parts.length) (fun _ => True)
      (sumOfSixtieths sum (60 ^ k) parts) := by
  induction parts generalizing k sum with
  | nil => trivial
  | cons part parts ih =>
      rw [sumOfSixtieths]
      split
      · have hmore := ih (k + 1)
        rw [Nat.add_right_comm, Nat.add_assoc] at hmore
        exact hmore _
      next hinfinite =>
        refine ⟨rfl, ?_⟩
        rw [List.length_cons]
        rcases Nat.lt_or_ge k 174 with hlt | hge
        · rcases ofInt_pow_isFinite hlt with ⟨negative, m, e, hfinite⟩
          exact absurd hfinite (hinfinite negative m e)
        · omega

theorem concludes_float (codes : Codes) :
    Concludes (FormlessFor (Misread codes .float)) (fun _ => True) (floatOfCodes codes) := by
  rw [floatOfCodes, floatBody]
  refine ((concludes_signedBody _).imp fun fault hfault => ?_).bind fun v hv => ?_
  · rcases hfault with ⟨rfl, hnil⟩
    exact fun _ => .pointed (List.map_eq_nil_iff.mp hnil)
  · dsimp only
    refine concludes_ite (fun _ => trivial) fun _ => ?_
    refine concludes_ite (fun _ => trivial) fun _ => ?_
    split
    · exact (concludes_floatIn _).bind fun _ _ => trivial
    · refine (concludes_mapM fun part _ => concludes_floatIn part).bind fun xs hxs => ?_
      have hsum := concludes_sixtieths xs.reverse 0 (Binary64.ofInt 0)
      refine (hsum.imp fun fault hfault => ?_).bind fun _ _ => trivial
      rcases hfault with ⟨rfl, hlength⟩
      refine fun _ => .sixtieths ?_
      have hcount := hv.1.sublist.count_le ':'.toNat
      rw [List.length_reverse, hxs, length_sixtiethParts] at hlength
      omega

theorem concludes_bytes (mark : Mark) (codes : Codes) :
    Concludes (fun fault => fault.isFormless = false) (fun _ => True)
      (bytesOfCodes mark codes) := by
  rw [bytesOfCodes]
  dsimp only
  split
  · rfl
  · split
    · trivial
    · rfl
    · rfl

end Texts

/-!
## Nodes
-/

def withoutLastFeed (cs : List Char) : List Char :=
  if cs.getLast? == some '\n' then cs.dropLast else cs

theorem concludes_timestamp (codes : Codes) :
    Concludes (FormlessFor fun fault => fault = .notTimestamp
        ∧ (TimestampParts.read (withoutLastFeed codes.chars)).isNone) (fun _ => True)
      (timestampOfCodes codes) := by
  rw [timestampOfCodes]
  dsimp only
  split
  next hnone =>
    refine fun _ => ⟨rfl, ?_⟩
    rw [withoutLastFeed, hnone]
    rfl
  next parts _ =>
    -- the calendar's own faults are no matter of form
    have hcalendar : ∀ value : Except CalendarFault Value,
        Concludes (fun fault => fault.isFormless = false) (fun _ => True)
          (value.mapError Fault.calendar) := by
      intro value
      cases value with
      | error fault => rfl
      | ok v => trivial
    exact (hcalendar _).imp fun _ => formlessFor_of_formed

def readTags : List Tag :=
  [.null, .bool, .int, .float, .binary, .timestamp, .text]

/-- How the node of a scalar does not have the form that its tag asks for. -/
inductive Misfit (nodes : Nodes) (n : Nat) : Fault → Prop where
  | text {codes : Codes} {fault : Fault} (htext : nodes.HasText n codes)
      (h : Misread codes (nodes.node n).tag fault) : Misfit nodes n fault
  | timestamp {codes : Codes} (htag : (nodes.node n).tag = .timestamp)
      (hcontent : (nodes.node n).content = .scalar codes)
      (h : (TimestampParts.read (withoutLastFeed codes.chars)).isNone) :
      Misfit nodes n .notTimestamp
  | entries {entries : List (Nat × Nat)} (htag : (nodes.node n).tag = .timestamp)
      (hcontent : (nodes.node n).content = .mapping entries) : Misfit nodes n .entriesForTimestamp
  | endless (htag : (nodes.node n).tag ∈ readTags) (h : nodes.IsEndless n) :
      Misfit nodes n .endlessDefault

section Value

variable {nodes : Nodes} {n : Nat}

theorem Misfit.isFormless {fault : Fault} (h : Misfit nodes n fault) :
    fault.isFormless = true := by
  cases h with
  | text _ hmisread => exact hmisread.isFormless
  | timestamp _ _ _ => rfl
  | entries _ _ => rfl
  | endless _ _ => rfl

theorem misfit_of_misread {codes : Codes} {tag : Tag} {fault : Fault}
    (htext : nodes.HasText n codes) (htag : (nodes.node n).tag = tag)
    (h : FormlessFor (Misread codes tag) fault) : FormlessFor (Misfit nodes n) fault :=
  fun hformless => .text htext (htag ▸ h hformless)

theorem concludes_textValue {value : Codes → Except Fault Value}
    (htag : (nodes.node n).tag ∈ readTags)
    (hvalue : ∀ codes, nodes.scalarCodes (nodes.size + 1) n = .ok codes → nodes.HasText n codes →
      Concludes (FormlessFor (Misfit nodes n)) (fun _ => True) (value codes)) :
    Concludes (FormlessFor (Misfit nodes n)) (fun _ => True) (do
      let codes ← nodes.scalarCodes (nodes.size + 1) n
      return (← value codes, codes)) := by
  have htext := nodes.concludes_scalarCodes (nodes.size + 1) n
  cases hcodes : nodes.scalarCodes (nodes.size + 1) n with
  | error fault =>
      intro hformless
      rcases htext.of_error hcodes hformless with ⟨rfl, hsome⟩
      exact .endless htag (Nodes.isEndless_of_isSome hsome)
  | ok codes => exact (hvalue codes hcodes (htext.of_ok hcodes)).bind fun _ _ => trivial

theorem scalarCodes_sequence {items : List Nat} {fuel : Nat} {codes : Codes}
    (hcontent : (nodes.node n).content = .sequence items) :
    nodes.scalarCodes (fuel + 1) n ≠ .ok codes := by
  rw [Nodes.scalarCodes, hcontent]
  rintro ⟨⟩

/-- What is wrong with a scalar that is no flaw is that it does not fit. -/
theorem concludes_scalarValue (nodes : Nodes) (n : Nat) :
    Concludes (FormlessFor (Misfit nodes n)) (fun _ => True) (nodes.scalarValue n) := by
  rw [Nodes.scalarValue]
  dsimp only
  cases htag : (nodes.node n).tag with
  | null => exact concludes_textValue (by rw [htag]; decide) fun _ _ _ => trivial
  | text => exact concludes_textValue (by rw [htag]; decide) fun _ _ _ => trivial
  | bool =>
      refine concludes_textValue (by rw [htag]; decide) fun codes _ htext => ?_
      refine ((concludes_bool codes).imp fun _ => misfit_of_misread htext htag).bind ?_
      exact fun _ _ => trivial
  | int =>
      refine concludes_textValue (by rw [htag]; decide) fun codes _ htext => ?_
      refine ((concludes_int codes).imp fun _ => misfit_of_misread htext htag).bind ?_
      exact fun _ _ => trivial
  | float =>
      refine concludes_textValue (by rw [htag]; decide) fun codes _ htext => ?_
      refine ((concludes_float codes).imp fun _ => misfit_of_misread htext htag).bind ?_
      exact fun _ _ => trivial
  | binary =>
      refine concludes_textValue (by rw [htag]; decide) fun codes _ _ => ?_
      exact (concludes_bytes _ codes).imp fun _ => formlessFor_of_formed
  | timestamp =>
      refine concludes_textValue (by rw [htag]; decide) fun codes hcodes _ => ?_
      split
      next own hcontent =>
        rw [Nodes.scalarCodes, hcontent] at hcodes
        cases hcodes
        refine (concludes_timestamp codes).imp fun fault hfault hformless => ?_
        rcases hfault hformless with ⟨rfl, hnone⟩
        exact .timestamp htag hcontent hnone
      next hother =>
        intro _
        cases hcontent : (nodes.node n).content with
        | scalar own => exact absurd hcontent (hother own)
        | sequence items => exact absurd hcodes (scalarCodes_sequence hcontent)
        | mapping entries => exact .entries htag hcontent
  | merge => exact formlessFor_of_formed rfl
  | default => exact formlessFor_of_formed rfl
  | indicator => exact formlessFor_of_formed rfl
  | sequence => exact formlessFor_of_formed rfl
  | mapping => exact formlessFor_of_formed rfl
  | set => exact formlessFor_of_formed rfl
  | orderedMap => exact formlessFor_of_formed rfl
  | pairs => exact formlessFor_of_formed rfl
  | other name => exact formlessFor_of_formed rfl

end Value

end Yaml
end TextMate
