import TextMate.Draft.Render
import TextMate.Proofs.Draft.Checked
import TextMate.Proofs.Draft.Shown
import TextMate.Proofs.Grammar.DocumentTargets
import TextMate.Proofs.Tree.Text

/-!
# Documents of checked grammars as drafts

No checked pattern is empty, so nothing is left out of the document of a draft but
the optional fields that are absent or empty.  Thus the draft of a checked grammar
has the document of the grammar, and is rendered as the grammar is.
-/

namespace TextMate
namespace Draft

/-!
## Fields in order
-/

/-- What a document shows of a field. -/
def shownMember (kind : Kind) (f : Field × Value) : List (String × Value) :=
  if kind.dropsEmpty f.1 && isEmpty f.2 then [] else [(kind.key f.1, plain f.2)]

section Fields

variable {kind : Kind} {fields : List (Field × Value)}

theorem find?_plainFields_of_absent {f : Field} (h : f ∉ fields.map (·.1)) :
    (plainFields kind fields).find? (fun e => e.1 == f) = none := by
  rw [plainFields_eq, List.find?_eq_none]
  intro e he heq
  rcases List.mem_map.mp he with ⟨g, hg, rfl⟩
  exact h (List.mem_map.mpr ⟨g, (List.mem_filter.mp hg).1, beq_iff_eq.mp heq⟩)

theorem find?_plainFields (hdiffer : (fields.map (·.1)).Nodup) {f : Field × Value}
    (hf : f ∈ fields) :
    (plainFields kind fields).find? (fun e => e.1 == f.1) =
      if kind.dropsEmpty f.1 && isEmpty f.2 then none else some (f.1, plain f.2) := by
  induction fields with
  | nil => cases hf
  | cons e fields ih =>
      rw [List.map_cons, List.nodup_cons] at hdiffer
      rw [plainFields]
      rcases List.mem_cons.mp hf with rfl | hf
      · split
        · exact find?_plainFields_of_absent hdiffer.1
        · rw [List.find?_cons, beq_self_eq_true]
      · have hne : ¬ (e.1 == f.1) = true := by
          rw [beq_iff_eq]
          intro heq
          exact hdiffer.1 (heq ▸ List.mem_map_of_mem hf)
        rw [← ih hdiffer.2 hf]
        split
        · rfl
        · exact List.find?_cons_of_neg hne

/-- Where the fields of an object are set in order, its document has what it shows of them. -/
theorem arrange_plainFields (hnames : fields.map (·.1) = kind.fields)
    (hdiffer : kind.fields.Nodup) :
    arrange kind (plainFields kind fields) = fields.flatMap (shownMember kind) := by
  rw [arrange, ← hnames, List.filterMap_map, List.filterMap_eq_flatMap_toList]
  rw [← hnames] at hdiffer
  apply List.flatMap_congr
  intro f hf
  rw [Function.comp_apply, find?_plainFields hdiffer hf, shownMember]
  cases kind.dropsEmpty f.1 <;> cases isEmpty f.2 <;> simp

end Fields

/-!
## Members
-/

def asEntries (members : List (String × Tree)) : List (String × Value) :=
  members.map fun m => (m.1, m.2.value)

theorem asEntries_append (members others : List (String × Tree)) :
    asEntries (members ++ others) = asEntries members ++ asEntries others :=
  List.map_append ..

theorem ofNamed_asEntries (members : List (String × Tree)) :
    ofNamed (asEntries members) = (Tree.object members).value := by
  rw [Tree.value_object, ofNamed, asEntries, List.map_map]
  rfl

section Kept

variable {α : Type} {build : α → Value} {tree : α → Tree}

theorem plain_list {vs : List α} (hkept : ∀ a ∈ vs, isEmptyMember (build a) = false)
    (hplain : ∀ a ∈ vs, plain (build a) = (tree a).value) :
    plain (.list (vs.map build)) = (Tree.list (vs.map tree)).value := by
  have hall : (vs.map build).filter (fun v => !isEmptyMember v) = vs.map build :=
    List.filter_eq_self.mpr (List.forall_mem_map.mpr fun a ha => by rw [hkept a ha]; rfl)
  rw [plain, plainItems_eq, hall, Tree.value_list, List.map_map, List.map_map]
  exact congrArg _ (List.map_congr_left hplain)

theorem plain_ofNamed {es : List (String × α)} (hkept : ∀ a, isEmptyMember (build a) = false)
    (hplain : ∀ a, plain (build a) = (tree a).value) :
    plain (ofNamed (es.map fun e => (e.1, build e.2))) =
      (Tree.object (es.map fun e => (e.1, tree e.2))).value := by
  have hall : ((es.map fun e => (e.1, build e.2)).map fun e => (Value.text e.1, e.2)).filter
      (fun e => !isEmptyMember e.2) =
        (es.map fun e => (e.1, build e.2)).map fun e => (Value.text e.1, e.2) := by
    rw [List.filter_eq_self, List.map_map, List.forall_mem_map]
    exact fun e _ => by rw [Function.comp_apply, hkept]; rfl
  rw [ofNamed, plain, plainEntries_eq, hall, Tree.value_object, List.map_map, List.map_map,
    List.map_map]
  refine congrArg _ (List.map_congr_left fun e _ => ?_)
  exact congrArg (Prod.mk _) (hplain e.2)

end Kept

/-- No checked pattern is empty. -/
theorem isEmptyMember_ofPattern (p : Pattern) : isEmptyMember (ofPattern p) = false := by
  rw [isEmptyMember, isEmpty.eq_def]
  cases p <;>
    simp [ofPattern, matching, block, reference, showsNothing_cons, Kind.dropsEmpty, isNull]

section Members

variable (kind : Kind) (f : Field)

theorem shownMember_required (h : kind.dropsEmpty f = false) (s : String) :
    shownMember kind (f, .text s) = asEntries [(kind.key f, .text s)] := by
  rw [shownMember, h]
  rfl

variable (h : kind.dropsEmpty f = true)
include h

theorem shownMember_ofOption (s : Option String) :
    shownMember kind (f, ofOption s) = asEntries (textMember (kind.key f) s) := by
  rw [shownMember, h]
  cases s with
  | none => rfl
  | some s =>
      show (if s.isEmpty = true then [] else [(kind.key f, Value.text s)]) = _
      rw [textMember]
      cases s.isEmpty <;> rfl

theorem shownMember_ofCaptures (captures : Captures Capture) :
    shownMember kind (f, ofCaptures (ofCheckedCaptures captures)) =
      asEntries (capturesMember (kind.key f) captures) := by
  rw [shownMember, h, Bool.true_and]
  rcases captures with _ | _ | ⟨c, cs⟩
  · rfl
  · rfl
  · have hplain : ∀ c : Capture, plain (capture c.name) = c.document.value := fun _ => rfl
    exact congrArg (fun v => [(kind.key f, v)]) (plain_ofNamed (fun _ => rfl) hplain)

theorem shownMember_ofPatterns {ps : Option (List Pattern)} (hkey : kind.key f = "patterns")
    (hplain : ∀ qs, ps = some qs → ∀ p ∈ qs, plain (ofPattern p) = p.document.value) :
    shownMember kind (f, ofList (ofPatterns? ps)) = asEntries (Pattern.patternsMember ps) := by
  rw [shownMember, h, Bool.true_and, hkey]
  rcases ps with _ | _ | ⟨p, ps⟩
  · rfl
  · rfl
  · have hlist := plain_list (fun q _ => isEmptyMember_ofPattern q) (hplain _ rfl)
    rw [← ofPatterns_eq_map, ← Pattern.documents_eq_map] at hlist
    exact congrArg (fun v => [("patterns", v)]) hlist

end Members

/-!
## Documents
-/

theorem plain_matching (rule : MatchRule Capture) :
    plain (ofPattern (.matching rule)) = (Pattern.matching rule).document.value := by
  have hdocument : (Pattern.matching rule).document = .object (textMember "name" rule.name
      ++ [("match", .text rule.regex)] ++ capturesMember "captures" rule.captures) := rfl
  rw [ofPattern, matching, plain, arrange_plainFields rfl (by decide), hdocument,
    ← ofNamed_asEntries, asEntries_append, asEntries_append, List.flatMap_cons, List.flatMap_cons,
    List.flatMap_cons, shownMember_ofOption .matching .name rfl,
    shownMember_required .matching .regex rfl, shownMember_ofCaptures .matching .captures rfl]
  simp only [List.flatMap_nil, List.append_nil, List.append_assoc]
  rfl

theorem plain_block (rule : BlockRule Capture) (ps : Option (List Pattern))
    (hplain : ∀ qs, ps = some qs → ∀ p ∈ qs, plain (ofPattern p) = p.document.value) :
    plain (ofPattern (.block rule ps)) = (Pattern.block rule ps).document.value := by
  have hdocument : (Pattern.block rule ps).document = .object (textMember "name" rule.name
      ++ [("begin", .text rule.opening)] ++ capturesMember "beginCaptures" rule.openingCaptures
      ++ [("end", .text rule.closing)] ++ capturesMember "endCaptures" rule.closingCaptures
      ++ capturesMember "captures" rule.captures ++ textMember "contentName" rule.contentName
      ++ Pattern.patternsMember ps) := rfl
  have hpatterns := shownMember_ofPatterns .block .patterns rfl rfl hplain
  rw [ofPattern, block, plain, arrange_plainFields rfl (by decide), hdocument, ← ofNamed_asEntries]
  simp only [asEntries_append, List.flatMap_cons, List.flatMap_nil, List.append_nil,
    List.append_assoc, shownMember_ofOption .block .name rfl,
    shownMember_required .block .opening rfl, shownMember_required .block .closing rfl,
    shownMember_ofCaptures .block .openingCaptures rfl,
    shownMember_ofCaptures .block .closingCaptures rfl,
    shownMember_ofCaptures .block .captures rfl, shownMember_ofOption .block .contentName rfl,
    hpatterns]
  rfl

theorem plain_ofPattern (p : Pattern) : plain (ofPattern p) = p.document.value := by
  induction p using Pattern.inductionOn with
  | matching rule => exact plain_matching rule
  | reference target => rfl
  | absent rule => exact plain_block rule none nofun
  | block rule ps ih =>
      refine plain_block rule (some ps) fun qs hqs => ?_
      cases hqs
      exact ih

theorem shownMember_fileTypes (types : Option (List String)) :
    shownMember .grammar (.fileTypes, ofList (types.map fun types => types.map .text)) =
      asEntries (Grammar.fileTypesMember types) := by
  rcases types with _ | _ | ⟨t, ts⟩
  · rfl
  · rfl
  · have hlist : plain (.list ((t :: ts).map .text)) = (Tree.list ((t :: ts).map .text)).value :=
      plain_list (fun _ _ => rfl) (fun _ _ => rfl)
    exact congrArg (fun v => [("fileTypes", v)]) hlist

theorem shownMember_repository (g : Grammar) :
    shownMember .grammar (.repository, repositoryOf g) =
      asEntries (Grammar.repositoryMember g.repository) := by
  rw [repositoryOf]
  rcases g.repository with _ | _ | ⟨e, es⟩
  · rfl
  · rfl
  · dsimp only
    rw [← ofNamed_ofPattern]
    exact congrArg (fun v => [("repository", v)])
      (plain_ofNamed isEmptyMember_ofPattern plain_ofPattern)

/-- The document of the draft of a grammar is the document of the grammar. -/
theorem plain_ofGrammar (g : Grammar) : plain (ofGrammar g) = g.plainDocument.value := by
  have hpatterns : shownMember .grammar (.patterns, ofList (ofPatterns? g.patterns)) =
      asEntries (Pattern.patternsMember g.patterns) :=
    shownMember_ofPatterns .grammar .patterns rfl rfl fun _ _ p _ => plain_ofPattern p
  have hrecord : ofGrammar g = .record .grammar
      [(.schemaUri, ofOption g.header.schemaUri), (.name, ofOption g.header.name),
        (.scopeName, .text g.header.scopeName),
        (.fileTypes, ofList (g.header.fileTypes.map fun types => types.map .text)),
        (.foldingStartMarker, ofOption g.header.foldingStartMarker),
        (.foldingStopMarker, ofOption g.header.foldingStopMarker),
        (.firstLineMatch, .text g.header.firstLineMatch),
        (.injectionSelector, .text g.header.injectionSelector), (.uuid, .text g.header.uuid),
        (.patterns, ofList (ofPatterns? g.patterns)), (.repository, repositoryOf g)] :=
    ofGrammar_eq g
  rw [hrecord, plain, arrange_plainFields rfl (by decide), Grammar.plainDocument,
    ← ofNamed_asEntries]
  simp only [asEntries_append, List.flatMap_cons, List.flatMap_nil, List.append_nil,
    List.append_assoc, shownMember_ofOption .grammar .schemaUri rfl,
    shownMember_ofOption .grammar .name rfl, shownMember_required .grammar .scopeName rfl,
    shownMember_fileTypes, shownMember_ofOption .grammar .foldingStartMarker rfl,
    shownMember_ofOption .grammar .foldingStopMarker rfl,
    shownMember_required .grammar .firstLineMatch rfl,
    shownMember_required .grammar .injectionSelector rfl,
    shownMember_required .grammar .uuid rfl, hpatterns, shownMember_repository]
  rfl

/-!
## Printed documents
-/

mutual

theorem toTree_value : ∀ t : Tree, toTree t.value = .ok t
  | .null | .bool _ | .int _ | .float _ | .text _ => rfl
  | .list items => by
      rw [Tree.value, toTree, toItems_itemValues items]
      rfl
  | .object members => by
      rw [Tree.value, toTree, toMembers_memberValues members]
      rfl

theorem toItems_itemValues : ∀ items : List Tree, toItems (Tree.itemValues items) = .ok items
  | [] => rfl
  | t :: items => by
      rw [Tree.itemValues, toItems, toTree_value t, ok_bind, toItems_itemValues items]
      rfl

theorem toMembers_memberValues :
    ∀ members : List (String × Tree), toMembers (Tree.memberValues members) = .ok members
  | [] => rfl
  | (name, t) :: members => by
      rw [Tree.memberValues, toMembers, jsonName, ok_bind, toTree_value t, ok_bind,
        toMembers_memberValues members]
      rfl

end

mutual

theorem toOutline_value : ∀ t : Tree, toOutline t.value = .ok (Yaml.Outline.ofTree t)
  | .null | .bool _ | .int _ | .float _ | .text _ => rfl
  | .list items => by
      rw [Tree.value, toOutline, toSequence_itemValues items]
      rfl
  | .object members => by
      rw [Tree.value, toOutline, toMapping_memberValues members]
      rfl

theorem toSequence_itemValues :
    ∀ items : List Tree, toSequence (Tree.itemValues items) = .ok (Yaml.Outline.ofItems items)
  | [] => rfl
  | t :: items => by
      rw [Tree.itemValues, toSequence, toOutline_value t, ok_bind, toSequence_itemValues items]
      rfl

theorem toMapping_memberValues :
    ∀ members : List (String × Tree),
      toMapping (Tree.memberValues members) = .ok (Yaml.Outline.ofMembers members)
  | [] => rfl
  | (name, t) :: members => by
      rw [Tree.memberValues, toMapping, toOutline, ok_bind, toOutline_value t, ok_bind,
        toMapping_memberValues members]
      rfl

end

theorem print_value (format : Format) (t : Tree) : print format t.value = .ok (format.print t) := by
  cases format with
  | yaml =>
      rw [print, toOutline_value]
      rfl
  | json =>
      rw [print, toTree_value]
      rfl

theorem prepare_ofGrammar (g : Grammar) :
    prepare (ofGrammar g) =
      (g.prepare.map fun prepared => (ofGrammar prepared.1, prepared.2)).mapError .dangling := by
  rw [prepare, report_ofGrammar, ok_bind, Grammar.prepare]
  cases g.report.dangling? with
  | some references => rfl
  | none =>
      rw [unmarkIncludes_ofGrammar]
      rfl

theorem document_ofGrammar (g : Grammar) :
    document (ofGrammar g) = (g.document.map Tree.value).mapError .dangling := by
  rw [document, prepare_ofGrammar, Grammar.document]
  cases g.prepare with
  | error references => rfl
  | ok prepared => exact congrArg Except.ok (plain_ofGrammar prepared.1)

/-- The draft of a grammar is rendered as the grammar is. -/
theorem render_ofGrammar (format : Format) (g : Grammar) :
    render format (ofGrammar g) = (g.render format).mapError .dangling := by
  rw [render, prepare_ofGrammar, Grammar.render]
  cases g.prepare with
  | error references => rfl
  | ok prepared =>
      show (print format (plain (ofGrammar prepared.1)) >>= _) = _
      rw [plain_ofGrammar, print_value]
      rfl

end Draft
end TextMate
