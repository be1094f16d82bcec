import Mathlib.Tactic.ByContra
import TextMate.Proofs.Grammar.Dangling
import TextMate.Proofs.Grammar.Unmark

/-!
# Targets in documents

What an editor finds in a document: the targets of the references at any depth,
and the names under which the repository has entries.  Both are read off the
document by its keys.  The document of a grammar has the targets of the grammar
and the names of its repository, so the references that dangle in a rendered
document are known exactly: they are those whose mark for another grammar hid
the sign of the repository when the grammar was looked through.
-/

namespace TextMate

namespace Tree

mutual

def patternTargets : Tree → List String
  | object members => memberTargets members
  | _ => []

def memberTargets : List (String × Tree) → List String
  | [] => []
  | (key, text target) :: members =>
      (if key == "include" then [target] else []) ++ memberTargets members
  | (key, list items) :: members =>
      (if key == "patterns" then itemTargets items else []) ++ memberTargets members
  | _ :: members => memberTargets members

def itemTargets : List Tree → List String
  | [] => []
  | item :: items => patternTargets item ++ itemTargets items

end

def repositoryMembers (t : Tree) : List (String × Tree) :=
  match t.member? "repository" with
  | some (object members) => members
  | _ => []

def repositoryNames (t : Tree) : List String :=
  t.repositoryMembers.map (·.1)

/-- The targets of all references in a document: in its patterns and in its repository. -/
def documentTargets (t : Tree) : List String :=
  (match t.member? "patterns" with
    | some (list items) => itemTargets items
    | _ => [])
    ++ t.repositoryMembers.flatMap fun m => m.2.patternTargets

theorem memberTargets_append (xs ys : List (String × Tree)) :
    memberTargets (xs ++ ys) = memberTargets xs ++ memberTargets ys := by
  induction xs with
  | nil => rfl
  | cons x xs ih =>
      rcases x with ⟨key, value⟩
      cases value <;> simp [memberTargets, ih]

theorem itemTargets_eq_flatMap (items : List Tree) :
    itemTargets items = items.flatMap patternTargets := by
  induction items with
  | nil => rfl
  | cons item items ih => rw [itemTargets, ih, List.flatMap_cons]

end Tree

namespace Pattern

open TextMate.Tree

theorem memberTargets_textMember {key : String} (h : key ≠ "include") (s : Option String) :
    memberTargets (textMember key s) = [] := by
  cases s with
  | none => rfl
  | some s =>
      unfold textMember
      split
      · rename_i heq
        cases heq
        split
        · rfl
        · simp [memberTargets, h]
      · rfl

theorem memberTargets_capturesMember (key : String) (captures : Captures Capture) :
    memberTargets (capturesMember key captures) = [] := by
  unfold capturesMember
  split <;> rfl

theorem documents_eq_map (ps : List Pattern) : documents ps = ps.map document := by
  induction ps with
  | nil => rfl
  | cons p ps ih => rw [documents, ih, List.map_cons]

theorem patternsMember_eq (ps : Option (List Pattern)) :
    patternsMember ps =
      if ps.getD [] = [] then [] else [("patterns", .list ((ps.getD []).map document))] := by
  cases ps with
  | none => rfl
  | some ps =>
      cases ps with
      | nil => rfl
      | cons p ps =>
          rw [patternsMember, documents_eq_map, if_neg (by simp)]
          rfl

theorem patternTargets_document (p : Pattern) : p.document.patternTargets = p.targets := by
  induction p using inductionOn with
  | matching rule =>
      simp [document, patternTargets, memberTargets_append, memberTargets_textMember,
        memberTargets_capturesMember, memberTargets]
  | reference target => simp [document, patternTargets, memberTargets]
  | absent rule =>
      simp [document, patternTargets, memberTargets_append, memberTargets_textMember,
        memberTargets_capturesMember, memberTargets, patternsMember]
  | block rule ps ih =>
      have hps : memberTargets (patternsMember (some ps)) = ps.flatMap targets := by
        rw [patternsMember_eq]
        split
        · rename_i h
          rw [show ps = [] from h]
          rfl
        · simp only [memberTargets, itemTargets_eq_flatMap, Option.getD_some, beq_self_eq_true,
            if_true, List.append_nil, List.flatMap_map]
          exact List.flatMap_congr ih
      simp [document, patternTargets, memberTargets_append, memberTargets_textMember,
        memberTargets_capturesMember, memberTargets, hps]

end Pattern

namespace Grammar

open TextMate.Tree

theorem find?_textMember_of_ne {key name : String} (h : key ≠ name) (s : Option String) :
    (textMember key s).find? (fun m => m.1 == name) = none := by
  cases s with
  | none => rfl
  | some s =>
      unfold textMember
      split
      · rename_i heq
        cases heq
        split
        · rfl
        · simp [h]
      · rfl

theorem find?_fileTypesMember_of_ne {name : String} (h : "fileTypes" ≠ name)
    (types : Option (List String)) :
    (fileTypesMember types).find? (fun m => m.1 == name) = none := by
  unfold fileTypesMember
  split
  · simp [h]
  · rfl

theorem repositoryMember_eq (entries : Option (List (String × Pattern))) :
    repositoryMember entries =
      if entries.getD [] = [] then []
      else [("repository", .object ((entries.getD []).map fun e => (e.1, e.2.document)))] := by
  cases entries with
  | none => rfl
  | some es =>
      cases es with
      | nil => rfl
      | cons e es =>
          rw [repositoryMember, if_neg (by simp)]
          rfl

theorem member?_patterns_plainDocument (g : Grammar) :
    g.plainDocument.member? "patterns" =
      if g.topLevel = [] then none else some (.list (g.topLevel.map Pattern.document)) := by
  have hrep : (repositoryMember g.repository).find? (fun m => m.1 == "patterns") = none := by
    rw [repositoryMember_eq]
    split <;> simp
  have hpat : (Pattern.patternsMember g.patterns).find? (fun m => m.1 == "patterns") =
      if g.topLevel = [] then none
      else some ("patterns", .list (g.topLevel.map Pattern.document)) := by
    rw [Pattern.patternsMember_eq, topLevel]
    split <;> simp
  simp only [plainDocument, member?, List.find?_append, hrep, hpat,
    find?_textMember_of_ne (show "$schema" ≠ "patterns" by decide),
    find?_textMember_of_ne (show "name" ≠ "patterns" by decide),
    find?_textMember_of_ne (show "foldingStartMarker" ≠ "patterns" by decide),
    find?_textMember_of_ne (show "foldingStopMarker" ≠ "patterns" by decide),
    find?_fileTypesMember_of_ne (show "fileTypes" ≠ "patterns" by decide)]
  split <;> simp

theorem member?_repository_plainDocument (g : Grammar) :
    g.plainDocument.member? "repository" =
      if g.entries = [] then none
      else some (.object (g.entries.map fun e => (e.1, e.2.document))) := by
  have hrep : (repositoryMember g.repository).find? (fun m => m.1 == "repository") =
      if g.entries = [] then none
      else some ("repository", .object (g.entries.map fun e => (e.1, e.2.document))) := by
    rw [repositoryMember_eq, entries]
    split <;> simp
  have hpat : (Pattern.patternsMember g.patterns).find? (fun m => m.1 == "repository") =
      none := by
    rw [Pattern.patternsMember_eq]
    split <;> simp
  simp only [plainDocument, member?, List.find?_append, hrep, hpat,
    find?_textMember_of_ne (show "$schema" ≠ "repository" by decide),
    find?_textMember_of_ne (show "name" ≠ "repository" by decide),
    find?_textMember_of_ne (show "foldingStartMarker" ≠ "repository" by decide),
    find?_textMember_of_ne (show "foldingStopMarker" ≠ "repository" by decide),
    find?_fileTypesMember_of_ne (show "fileTypes" ≠ "repository" by decide)]
  split <;> simp

theorem repositoryMembers_plainDocument (g : Grammar) :
    g.plainDocument.repositoryMembers = g.entries.map fun e => (e.1, e.2.document) := by
  rw [repositoryMembers, member?_repository_plainDocument]
  split
  · rename_i h
    split at h
    · cases h
    · cases h
      rfl
  · rename_i h
    split at h
    · rename_i hnil
      rw [hnil]
      rfl
    · rename_i hcons
      exact absurd rfl (h _)

theorem repositoryNames_plainDocument (g : Grammar) :
    g.plainDocument.repositoryNames = g.names := by
  rw [repositoryNames, repositoryMembers_plainDocument, names, List.map_map]
  rfl

theorem documentTargets_plainDocument (g : Grammar) :
    g.plainDocument.documentTargets = g.targets := by
  rw [documentTargets, repositoryMembers_plainDocument, member?_patterns_plainDocument,
    targets_eq, List.flatMap_map]
  congr 1
  · split
    · rename_i h
      split at h
      · cases h
      · cases h
        rw [itemTargets_eq_flatMap, List.flatMap_map]
        simp only [Pattern.patternTargets_document]
    · rename_i h
      split at h
      · rename_i hnil
        rw [hnil]
        rfl
      · exact absurd rfl (h _)
  · simp only [Pattern.patternTargets_document]

/-!
## Dangling references of rendered documents
-/

theorem mem_targets_iff {g : Grammar} {target : String} :
    target ∈ g.targets ↔ ∃ place, g.at? place = some (.reference target) := by
  rw [targets_eq_filterMap_visits, List.mem_filterMap]
  constructor
  · rintro ⟨⟨place, p⟩, hv, ht⟩
    cases p with
    | matching rule => cases ht
    | block rule ps => cases ht
    | reference other =>
        cases ht
        exact ⟨place, (g.mem_visits_iff _ _).mp hv⟩
  · rintro ⟨place, hat⟩
    exact ⟨(place, .reference target), (g.mem_visits_iff _ _).mpr hat, rfl⟩

theorem exists_render_eq_ok_iff_targets (g : Grammar) (format : Format) :
    (∃ r, g.render format = .ok r) ↔ ∀ name, "#" ++ name ∈ g.targets → name ∈ g.names := by
  rw [exists_render_eq_ok_iff, Report.dangling?_report,
    DanglingReferences.ofList?_eq_none_iff, List.map_eq_nil_iff, List.eq_nil_iff_forall_not_mem]
  constructor
  · intro h name hmem
    rcases mem_targets_iff.mp hmem with ⟨place, hat⟩
    by_contra hname
    exact h (place, "#" ++ name) (mem_danglingVisits_iff.mpr ⟨hat, name, rfl, hname⟩)
  · rintro h ⟨place, target⟩ hmem
    rcases mem_danglingVisits_iff.mp hmem with ⟨hat, name, rfl, hname⟩
    exact hname (h name (mem_targets_iff.mpr ⟨place, hat⟩))

theorem document_of_render {g : Grammar} {format : Format} {r : Rendering}
    (h : g.render format = .ok r) :
    g.document = .ok g.unmarkIncludes.plainDocument
      ∧ r.text = format.print g.unmarkIncludes.plainDocument := by
  have hnone := (g.exists_render_eq_ok_iff format).mp ⟨r, h⟩
  constructor
  · unfold document prepare
    simp only [hnone]
    rfl
  · rw [render_of_dangling?_eq_none hnone] at h
    cases h
    rfl

/-- A name that a document asks for was asked for by the grammar, behind a mark or without. -/
theorem entry_mem_targets_unmarkIncludes_iff {g : Grammar} {name : String} :
    "#" ++ name ∈ g.unmarkIncludes.targets ↔
      "#" ++ name ∈ g.targets ∨ "!#" ++ name ∈ g.targets := by
  rw [targets_unmarkIncludes, List.mem_map]
  constructor
  · rintro ⟨target, hmem, heq⟩
    rcases Include.eq_or_eq_mark_of_unmark heq with rfl | rfl
    · exact Or.inl hmem
    · exact Or.inr hmem
  · rintro (hmem | hmem)
    · exact ⟨_, hmem, Include.unmark_entry name⟩
    · exact ⟨_, hmem, Include.unmark_mark ("#" ++ name)⟩

/-- The references that dangle in a rendered document are those to entries that the grammar
does not define and asks for behind a mark; so there are none exactly if all entries asked for
behind a mark are defined. -/
theorem rendered_document_dangles_exactly_behind_marks {g : Grammar} {format : Format}
    {r : Rendering} (h : g.render format = .ok r) :
    ∃ document, g.document = .ok document ∧ r.text = format.print document
      ∧ (∀ name,
          ("#" ++ name ∈ document.documentTargets ∧ name ∉ document.repositoryNames) ↔
            ("!#" ++ name ∈ g.targets ∧ name ∉ g.names))
      ∧ ((∀ name, "#" ++ name ∈ document.documentTargets → name ∈ document.repositoryNames) ↔
          ∀ name, "!#" ++ name ∈ g.targets → name ∈ g.names) := by
  rcases document_of_render h with ⟨hdocument, htext⟩
  have hdefined := (g.exists_render_eq_ok_iff_targets format).mp ⟨r, h⟩
  have hexact : ∀ name,
      ("#" ++ name ∈ g.unmarkIncludes.plainDocument.documentTargets
          ∧ name ∉ g.unmarkIncludes.plainDocument.repositoryNames) ↔
        ("!#" ++ name ∈ g.targets ∧ name ∉ g.names) := by
    intro name
    rw [documentTargets_plainDocument, repositoryNames_plainDocument, names_unmarkIncludes,
      entry_mem_targets_unmarkIncludes_iff]
    constructor
    · rintro ⟨hmem | hmem, hname⟩
      · exact absurd (hdefined name hmem) hname
      · exact ⟨hmem, hname⟩
    · rintro ⟨hmem, hname⟩
      exact ⟨Or.inr hmem, hname⟩
  refine ⟨_, hdocument, htext, hexact, ?_⟩
  constructor
  · intro hall name hmem
    by_contra hname
    rcases (hexact name).mpr ⟨hmem, hname⟩ with ⟨hdoc, hrep⟩
    exact hrep (hall name hdoc)
  · intro hall name hdoc
    by_contra hrep
    rcases (hexact name).mp ⟨hdoc, hrep⟩ with ⟨hmem, hname⟩
    exact hname (hall name hmem)

def hidingEntry : Grammar where
  header := ⟨none, none, "source.x", none, none, none, "", "", "u"⟩
  patterns := some [.reference "!#missing", .reference "#here"]
  repository := some [("here", .matching ⟨none, "x", none⟩)]

/-- The document of such a grammar is rendered although a reference dangles in it. -/
theorem hidden_entry_dangles :
    ∃ r document, hidingEntry.render .json = .ok r ∧ hidingEntry.document = .ok document
      ∧ r.text = Json.print document
      ∧ "#missing" ∈ document.documentTargets ∧ "missing" ∉ document.repositoryNames := by
  have hr := render_of_dangling?_eq_none (show hidingEntry.report.dangling? = none from rfl) .json
  rcases rendered_document_dangles_exactly_behind_marks hr with
    ⟨document, hdocument, htext, hexact, _⟩
  exact ⟨_, document, hr, hdocument, htext, (hexact "missing").mpr (by decide)⟩

end Grammar
end TextMate
