import TextMate.Proofs.Grammar.Codes
import TextMate.Proofs.Grammar.DocumentTargets
import TextMate.Proofs.Grammar.Rerendering

/-!
# Empty targets

A report warns of each reference whose target is empty in the grammar, and a
rendering has a line for each warning.  The document that is rendered has one
more kind of reference with an empty target: one whose target was a mark and
nothing else.  The main result counts both, so that the lines announce all empty
targets of a document exactly if no target of the grammar is a bare mark.
-/

namespace TextMate

/-!
## What is found
-/

namespace Issue

def head (severity : Severity) (code : String) : List Char :=
  ("[" ++ severity.label ++ "] " ++ code ++ ": ").toList

theorem head_prefix_text (i : Issue) : head i.severity i.code <+: i.text.toList := by
  rw [head, text]
  generalize "[" ++ i.severity.label ++ "] " ++ i.code ++ ": " = front
  rw [String.append_assoc, String.toList_append]
  exact List.prefix_append _ _

theorem eq_of_head_append {severity : Severity} {code code' : String} (h : ':' ∉ code.toList)
    (h' : ':' ∉ code'.toList) {rest rest' : List Char}
    (heq : head severity code ++ rest = head severity code' ++ rest') : code = code' := by
  simp only [head, String.toList_append, List.append_assoc, List.append_cancel_left_eq] at heq
  have upToColon : ∀ {word : String} (behind : List Char), ':' ∉ word.toList →
      (word.toList ++ (": ".toList ++ behind)).takeWhile (· != ':') = word.toList := by
    intro word behind hword
    rw [List.takeWhile_append_of_pos (by grind)]
    simp
  rw [← String.toList_inj, ← upToColon rest h, heq, upToColon rest' h']

theorem head_prefix_text_iff {i : Issue} {code : String} (hown : ':' ∉ i.code.toList)
    (hcode : ':' ∉ code.toList) :
    head i.severity code <+: i.text.toList ↔ i.code = code := by
  constructor
  · rintro ⟨rest, hrest⟩
    rcases i.head_prefix_text with ⟨rest', hrest'⟩
    exact eq_of_head_append hown hcode (hrest'.trans hrest.symm)
  · rintro rfl
    exact i.head_prefix_text

end Issue

namespace Report

theorem filter_emptyInclude_ofTarget (defines : String → Bool) (location target : String) :
    (ofTarget defines location target).filter (fun i => i.code == "EMPTY_INCLUDE") =
      if target = "" then [Issue.emptyInclude location (.text "")] else [] := by
  by_cases hempty : target = ""
  · subst hempty
    rfl
  · rw [if_neg hempty]
    apply filter_code_eq_nil
    intro i hi
    rcases mem_ofTarget_cases hi with ⟨hnone, _⟩ | rfl | rfl
    · exact absurd hnone hempty
    · exact (by decide : Issue.danglingCode ≠ "EMPTY_INCLUDE")
    · exact (by decide : "DOUBLE_EXTERNAL_MARKER" ≠ "EMPTY_INCLUDE")

theorem filter_emptyInclude_ofPattern (defines : String → Bool) (location : String)
    (p : Pattern) :
    (ofPattern defines location p).filter (fun i => i.code == "EMPTY_INCLUDE") =
      if p.target? = some "" then [Issue.emptyInclude location (.text "")] else [] := by
  have hcaptures : (∀ target, p ≠ .reference target) →
      (ofPattern defines location p).filter (fun i => i.code == "EMPTY_INCLUDE") = [] := by
    intro hp
    apply filter_code_eq_nil
    intro i hi
    rcases eq_captureKey_of_mem_ofPattern hp hi with ⟨_, key, rfl⟩
    exact (by decide : "INVALID_CAPTURE_KEY" ≠ "EMPTY_INCLUDE")
  cases p with
  | reference target =>
      simp only [ofPattern, filter_emptyInclude_ofTarget, Pattern.target?, Option.some.injEq]
  | matching rule => exact hcaptures (by simp)
  | block rule ps => exact hcaptures (by simp)

theorem withCode_emptyInclude (g : Grammar) :
    g.report.withCode "EMPTY_INCLUDE" =
      (g.walk.filter fun node => node.2.target? = some "").map
        fun node => Issue.emptyInclude node.1 (.text "") := by
  rw [withCode_of_mem_patternCodes g (by decide)]
  simp only [filter_emptyInclude_ofPattern]
  induction g.walk with
  | nil => rfl
  | cons node nodes ih =>
      rw [List.flatMap_cons, ih, List.filter_cons]
      by_cases hempty : node.2.target? = some ""
      · simp [hempty]
      · simp [hempty]

theorem length_withCode_emptyInclude (g : Grammar) :
    (g.report.withCode "EMPTY_INCLUDE").length = g.targets.count "" := by
  rw [withCode_emptyInclude, List.length_map, Grammar.targets_eq_filterMap_visits,
    g.walk_eq_visits, List.filter_map, List.length_map, List.count, List.countP_filterMap,
    List.countP_eq_length_filter]
  congr 2
  funext v
  rw [Function.comp_apply, Bool.eq_iff_iff, decide_eq_true_iff]
  cases v.2.target? with
  | none => simp
  | some target => simp

end Report

/-!
## What is announced
-/

def Rendering.emptyTargetLines (r : Rendering) : List String :=
  r.warnings.filter fun line => "[WARNING] EMPTY_INCLUDE: ".toList.isPrefixOf line.toList

namespace Report

theorem filter_warnings (g : Grammar) :
    (g.report.warnings.filter fun line =>
        "[WARNING] EMPTY_INCLUDE: ".toList.isPrefixOf line.toList) =
      (g.report.withCode "EMPTY_INCLUDE").map Issue.text := by
  rw [warnings, withSeverity, List.filter_map, List.filter_filter, withCode]
  congr 1
  apply List.filter_congr
  intro i hi
  have hcolon : ∀ code ∈ codes, ':' ∉ code.toList := by decide
  have hwarning : i.code = "EMPTY_INCLUDE" → i.severity = .warning := by
    intro hcode
    have hmem : i ∈ g.report.withCode "EMPTY_INCLUDE" :=
      List.mem_filter.mpr ⟨hi, beq_iff_eq.mpr hcode⟩
    rw [withCode_emptyInclude] at hmem
    rcases List.mem_map.mp hmem with ⟨node, _, rfl⟩
    rfl
  have hline : Issue.head i.severity "EMPTY_INCLUDE" <+: i.text.toList ↔
      i.code = "EMPTY_INCLUDE" :=
    Issue.head_prefix_text_iff (hcolon _ (code_of_mem_report hi)) (by decide)
  rw [Bool.eq_iff_iff, Bool.and_eq_true, Function.comp_apply, List.isPrefixOf_iff_prefix,
    beq_iff_eq, beq_iff_eq]
  constructor
  · rintro ⟨hbegins, hseverity⟩
    rw [hseverity] at hline
    exact hline.mp hbegins
  · intro hcode
    have hseverity := hwarning hcode
    rw [hseverity] at hline
    exact ⟨hline.mpr hcode, hseverity⟩

end Report

namespace Grammar

theorem count_targets_unmarkIncludes (g : Grammar) :
    g.unmarkIncludes.targets.count "" = g.targets.count "" + g.targets.count "!" := by
  have hempty : ∀ target, Include.unmark target = "" ↔ target = "" ∨ target = "!" := by
    intro target
    constructor
    · intro h
      exact Include.eq_or_eq_mark_of_unmark h
    · rintro (rfl | rfl)
      · rfl
      · exact Include.unmark_mark ""
  rw [targets_unmarkIncludes]
  induction g.targets with
  | nil => rfl
  | cons target targets ih =>
      simp only [List.map_cons, List.count_cons, ih, beq_iff_eq, hempty]
      grind

/-- The lines of a rendering announce the empty targets of the grammar.  Its document has more of
them by the targets of the grammar that are bare marks, so all of them are announced exactly if
there are none of these. -/
theorem announced_empty_targets_miss_bare_marks {g : Grammar} {format : Format} {r : Rendering}
    (h : g.render format = .ok r) :
    ∃ document, g.document = .ok document ∧ r.text = format.print document
      ∧ r.emptyTargetLines =
          ((g.walk.filter fun node => node.2.target? = some "").map
            fun node => (Issue.emptyInclude node.1 (.text "")).text)
      ∧ document.documentTargets.count "" = r.emptyTargetLines.length + g.targets.count "!"
      ∧ (document.documentTargets.count "" = r.emptyTargetLines.length ↔ "!" ∉ g.targets) := by
  rcases document_of_render h with ⟨hdocument, htext⟩
  have hlines : r.emptyTargetLines = (g.report.withCode "EMPTY_INCLUDE").map Issue.text := by
    rw [render_of_dangling?_eq_none ((g.exists_render_eq_ok_iff format).mp ⟨r, h⟩)] at h
    cases h
    exact Report.filter_warnings g
  have hcount : g.unmarkIncludes.plainDocument.documentTargets.count "" =
      r.emptyTargetLines.length + g.targets.count "!" := by
    rw [documentTargets_plainDocument, count_targets_unmarkIncludes, hlines, List.length_map,
      Report.length_withCode_emptyInclude]
  refine ⟨_, hdocument, htext, ?_, hcount, ?_⟩
  · rw [hlines, Report.withCode_emptyInclude, List.map_map]
    rfl
  · rw [hcount, Nat.add_eq_left, List.count_eq_zero]

def barelyMarked : Grammar where
  header := ⟨none, none, "source.x", none, none, none, "", "", "u"⟩
  patterns := some [.reference ""]
  repository := some [("here", .block ⟨none, "(", none, ")", none, none, none⟩
    (some [.reference "!"]))]

/-- One of the two empty targets of its document is announced. -/
theorem barelyMarked_announces_one :
    ∃ r document, barelyMarked.render .json = .ok r ∧ r.text = Json.print document
      ∧ r.emptyTargetLines.length = 1 ∧ document.documentTargets.count "" = 2 := by
  have hr := render_of_dangling?_eq_none (show barelyMarked.report.dangling? = none from rfl) .json
  rcases announced_empty_targets_miss_bare_marks hr with ⟨document, _, htext, hlines, hcount, _⟩
  have hone : (barelyMarked.walk.filter fun node => node.2.target? = some "").length = 1 := by
    decide
  rw [← List.length_map, ← hlines] at hone
  refine ⟨_, document, hr, htext, hone, ?_⟩
  rw [hcount, hone]
  decide

def bareMark : Grammar where
  header := ⟨none, none, "source.x", none, none, none, "", "", "u"⟩
  patterns := some [.reference "!"]
  repository := none

theorem bareMark_wellFormed : bareMark.WellFormed := by decide

/-- The empty target of its document is not announced. -/
theorem bareMark_is_not_announced :
    ∃ r document, bareMark.IsRead ∧ bareMark.render .json = .ok r
      ∧ bareMark.document = .ok document ∧ r.text = Json.print document
      ∧ document.documentTargets = [""] ∧ r.emptyTargetLines = [] := by
  have hr := render_of_dangling?_eq_none (show bareMark.report.dangling? = none from rfl) .json
  rcases document_of_render hr with ⟨hdocument, htext⟩
  refine ⟨_, _, bareMark_wellFormed.isRead rfl, hr, hdocument, htext, ?_, rfl⟩
  rw [documentTargets_plainDocument]
  rfl

end Grammar
end TextMate
