import TextMate.Proofs.Grammar.DocumentKeys
import TextMate.Proofs.Grammar.Rerendering
import TextMate.Proofs.Grammar.Same

/-!
# Places in documents

The mappings of patterns that an editor meets when it goes through a document,
each with its address: the indices to follow and the name of the entry to start
from.  Looking an address up and listing the mappings are defined on documents
alone.  The main result says that a document mirrors its grammar: mapping by
mapping and pattern by pattern the addresses agree, and each mapping encodes the
pattern that stands at its address.
-/

namespace TextMate

/-- The way to a pattern, or to the mapping of a pattern, with entries by their names. -/
inductive Address where
  | topLevel (i : Nat) (path : List Nat)
  | entry (name : String) (path : List Nat)
  deriving DecidableEq, Repr

def Address.location : Address → String
  | topLevel i path => "patterns/" ++ toString i ++ Pattern.pathText path
  | entry name path => "repository/" ++ name ++ Pattern.pathText path

namespace Tree

/-!
## Mappings in a document
-/

def inner (t : Tree) : List Tree :=
  match t.member? "patterns" with
  | some (list items) => items
  | _ => []

def nested? (t : Tree) : List Nat → Option Tree
  | [] => some t
  | i :: path => t.inner[i]?.bind fun u => u.nested? path

mutual

def visits : Tree → List (List Nat × Tree)
  | object members => ([], object members) :: memberVisits members
  | t => [([], t)]

def memberVisits : List (String × Tree) → List (List Nat × Tree)
  | [] => []
  | (key, list items) :: members =>
      if key == "patterns" then itemVisits 0 items else memberVisits members
  | (key, _) :: members => if key == "patterns" then [] else memberVisits members

def itemVisits : Nat → List Tree → List (List Nat × Tree)
  | _, [] => []
  | i, item :: items => item.visits.map (fun v => (i :: v.1, v.2)) ++ itemVisits (i + 1) items

end

def at? (t : Tree) : Address → Option Tree
  | .topLevel i path => t.inner[i]?.bind fun u => u.nested? path
  | .entry name path =>
      ((t.member? "repository").bind fun r => r.member? name).bind fun u => u.nested? path

/-- All mappings of patterns with their addresses: those in the list of patterns, then those in
the repository. -/
def patternVisits (t : Tree) : List (Address × Tree) :=
  (t.inner.zipIdx.flatMap fun u => u.1.visits.map fun v => (Address.topLevel u.2 v.1, v.2))
    ++ t.repositoryMembers.flatMap fun m =>
      m.2.visits.map fun v => (Address.entry m.1 v.1, v.2)

theorem member?_eq_none_of_not_mem_keys {t : Tree} {name : String} (h : name ∉ t.keys) :
    t.member? name = none := by
  cases t with
  | object members =>
      rw [member?, Option.map_eq_none_iff, List.find?_eq_none]
      intro m hm heq
      exact h (List.mem_map.mpr ⟨m, hm, beq_iff_eq.mp heq⟩)
  | _ => rfl

theorem memberVisits_eq (members : List (String × Tree)) :
    memberVisits members = itemVisits 0 (object members).inner := by
  induction members with
  | nil => rfl
  | cons m members ih =>
      rcases m with ⟨key, t⟩
      by_cases hkey : key = "patterns"
      · cases t <;> simp [memberVisits, inner, member?, hkey, itemVisits]
      · have hinner : (object ((key, t) :: members)).inner = (object members).inner := by
          rw [inner, inner, member?, member?, List.find?_cons_of_neg (by simpa using hkey)]
        rw [hinner, ← ih]
        cases t <;> simp [memberVisits, hkey]

theorem visits_object (members : List (String × Tree)) :
    (object members).visits = ([], object members) :: itemVisits 0 (object members).inner := by
  rw [visits, memberVisits_eq]

end Tree

namespace Pattern

open TextMate.Tree

theorem visits_eq_cons (p : Pattern) : p.visits = ([], p) :: visitsFrom 0 p.inner := by
  cases p with
  | matching rule => rfl
  | block rule patterns => cases patterns <;> rfl
  | reference target => rfl

/-- The list of patterns in the document of a pattern has the documents of the inner ones. -/
theorem inner_document (p : Pattern) : p.document.inner = p.inner.map document := by
  cases p with
  | matching rule =>
      have hmember : (matching rule).document.member? "patterns" = none := by
        apply member?_eq_none_of_not_mem_keys
        intro hmem
        have hfield : "patterns" ∈ ["name", "match", "captures"] :=
          (matching rule).keys_document_sublist.subset hmem
        exact absurd hfield (by decide)
      rw [Tree.inner, hmember]
      rfl
  | block rule patterns =>
      have hmember := (block rule patterns).member?_document (f := .patterns)
        (show Field.patterns ∈ Kind.fields .block by decide)
      rw [Tree.inner, show "patterns" = (block rule patterns).kind.key .patterns from rfl, hmember,
        fieldTree]
      cases patterns with
      | none => rfl
      | some ps => cases ps <;> rfl
  | reference target => rfl

/-- If the document of every pattern of a list is visited as the pattern is, so are the documents
of the list. -/
theorem itemVisits_map_document {ps : List Pattern}
    (h : ∀ p ∈ ps, p.document.visits = p.visits.map fun v => (v.1, v.2.document)) (start : Nat) :
    itemVisits start (ps.map document) =
      (visitsFrom start ps).map fun v => (v.1, v.2.document) := by
  induction ps generalizing start with
  | nil => rfl
  | cons p ps ih =>
      rw [List.map_cons, itemVisits, visitsFrom_cons, List.map_append, h p List.mem_cons_self,
        ih fun q hq => h q (List.mem_cons_of_mem _ hq), List.map_map, List.map_map]
      rfl

/-- The document of a pattern is visited as the pattern is. -/
theorem visits_document (p : Pattern) :
    p.document.visits = p.visits.map fun v => (v.1, v.2.document) := by
  -- whatever the form of a pattern is, it comes first, and then its inner patterns come
  have step : ∀ p : Pattern,
      (∀ q ∈ p.inner, q.document.visits = q.visits.map fun v => (v.1, v.2.document)) →
        p.document.visits = p.visits.map fun v => (v.1, v.2.document) := by
    intro p hinner
    rw [visits_eq_cons, List.map_cons, ← itemVisits_map_document hinner, ← inner_document,
      document_eq_members]
    exact visits_object _
  induction p using inductionOn with
  | matching rule => exact step _ nofun
  | reference target => exact step _ nofun
  | absent rule => exact step _ nofun
  | block rule ps ih => exact step _ ih

/-- A path leads in the document of a pattern to the document of what it leads to in the
pattern. -/
theorem nested?_document (p : Pattern) (path : List Nat) :
    p.document.nested? path = (p.at? path).map document := by
  induction path generalizing p with
  | nil => rfl
  | cons i path ih =>
      rw [nested?, at?_cons, inner_document, List.getElem?_map]
      cases p.inner[i]? with
      | none => rfl
      | some q => exact ih q

end Pattern

namespace Grammar

open TextMate.Tree

/-!
## Addresses in a grammar
-/

def address (g : Grammar) : Place → Address
  | .topLevel i path => .topLevel i path
  | .entry i path => .entry ((g.entries[i]?.map (·.1)).getD "") path

def find? (g : Grammar) : Address → Option Pattern
  | .topLevel i path => g.topLevel[i]?.bind fun p => p.at? path
  | .entry name path => (g.rule? name).bind fun p => p.at? path

def addressed (g : Grammar) : List (Address × Pattern) :=
  g.visits.map fun v => (g.address v.1, v.2)

theorem location_address (g : Grammar) (place : Place) :
    (g.address place).location = g.location place := by
  cases place <;> rfl

theorem walk_eq_addressed (g : Grammar) :
    g.walk = g.addressed.map fun v => (v.1.location, v.2) := by
  rw [walk_eq_visits, addressed, List.map_map]
  apply List.map_congr_left
  intro v _
  rw [Function.comp_apply, location_address]

theorem mem_addressed_iff {g : Grammar} (hdiffer : g.names.Nodup) {a : Address} {p : Pattern} :
    (a, p) ∈ g.addressed ↔ g.find? a = some p := by
  rw [addressed, List.mem_map]
  cases a with
  | topLevel i path =>
      constructor
      · rintro ⟨⟨place, q⟩, hv, heq⟩
        cases place with
        | topLevel j rest =>
            cases heq
            exact (g.mem_visits_iff _ _).mp hv
        | entry j rest => cases heq
      · intro hfind
        exact ⟨(.topLevel i path, p), (g.mem_visits_iff _ _).mpr hfind, rfl⟩
  | entry name path =>
      simp only [find?, Option.bind_eq_some_iff, rule?_eq_some_iff hdiffer]
      constructor
      · rintro ⟨⟨place, q⟩, hv, heq⟩
        cases place with
        | topLevel j rest => cases heq
        | entry j rest =>
            rcases Option.bind_eq_some_iff.mp ((g.mem_visits_iff _ _).mp hv) with ⟨e, he, hq⟩
            rw [address, he] at heq
            cases heq
            exact ⟨e.2, List.mem_of_getElem? he, hq⟩
      · rintro ⟨q, hmem, hq⟩
        rcases List.getElem?_of_mem hmem with ⟨i, hi⟩
        refine ⟨(.entry i path, p), (g.mem_visits_iff _ _).mpr ?_, ?_⟩
        · rw [at?, hi]
          exact hq
        · rw [address, hi]
          rfl

theorem nodup_addressed {g : Grammar} (hdiffer : g.names.Nodup) :
    (g.addressed.map (·.1)).Nodup := by
  rw [addressed, List.map_map, List.Nodup, List.pairwise_map]
  refine g.pairwise_visits.imp_of_mem ?_
  rintro ⟨v, p⟩ ⟨w, q⟩ hv hw hprecedes heq
  cases v with
  | topLevel i path =>
      cases w with
      | topLevel j rest =>
          cases heq
          exact List.lt_irrefl _ hprecedes
      | entry j rest => cases heq
  | entry i path =>
      cases w with
      | topLevel j rest => cases hprecedes
      | entry j rest =>
          rcases Option.bind_eq_some_iff.mp ((g.mem_visits_iff _ _).mp hv) with ⟨d, hd, _⟩
          rcases Option.bind_eq_some_iff.mp ((g.mem_visits_iff _ _).mp hw) with ⟨e, he, _⟩
          simp only [Function.comp_apply, address, hd, he, Option.map_some, Option.getD_some,
            Address.entry.injEq] at heq
          rcases heq with ⟨hname, rfl⟩
          have hi : g.names[i]? = some d.1 := by rw [names, List.getElem?_map, hd]; rfl
          have hj : g.names[j]? = some d.1 := by rw [names, List.getElem?_map, he, hname]; rfl
          have hij : i = j :=
            (List.getElem?_inj (List.getElem?_eq_some_iff.mp hi).1 hdiffer).mp (hi.trans hj.symm)
          subst hij
          exact List.lt_irrefl _ hprecedes

/-!
## The document of a grammar
-/

theorem inner_plainDocument (g : Grammar) :
    g.plainDocument.inner = g.topLevel.map Pattern.document := by
  rw [Tree.inner, member?_patterns_plainDocument]
  by_cases hnil : g.topLevel = []
  · rw [if_pos hnil, hnil]
    rfl
  · rw [if_neg hnil]

theorem map_address_visitsOf_entries (g : Grammar) :
    ((visitsOf .entry (g.entries.map (·.2))).map fun v => (g.address v.1, v.2)) =
      g.entries.flatMap fun e => e.2.visits.map fun v => (.entry e.1 v.1, v.2) := by
  have hzip : (g.entries.zipIdx.flatMap fun e =>
        e.1.2.visits.map fun v => (g.address (.entry e.2 v.1), v.2)) =
      g.entries.zipIdx.flatMap fun e => e.1.2.visits.map fun v => (.entry e.1.1 v.1, v.2) := by
    apply List.flatMap_congr
    rintro ⟨e, i⟩ he
    have hi : g.entries[i]? = some e := List.mem_zipIdx_iff_getElem?.mp he
    simp [address, hi]
  rw [visitsOf, List.map_flatMap, List.zipIdx_map, List.flatMap_map]
  simp only [List.map_map]
  refine hzip.trans ?_
  conv_rhs => rw [← List.zipIdx_map_fst 0 g.entries, List.flatMap_map]

/-- The document of a grammar has the documents of its patterns at their addresses. -/
theorem patternVisits_plainDocument (g : Grammar) :
    g.plainDocument.patternVisits = g.addressed.map fun v => (v.1, v.2.document) := by
  rw [patternVisits, inner_plainDocument, repositoryMembers_plainDocument, addressed, visits,
    List.map_append, List.map_append, map_address_visitsOf_entries]
  congr 1
  · rw [visitsOf, List.zipIdx_map, List.flatMap_map, List.map_flatMap, List.map_flatMap]
    simp only [Prod.map_fst, Prod.map_snd, id_eq, Pattern.visits_document, List.map_map]
    rfl
  · rw [List.flatMap_map, List.map_flatMap]
    simp only [Pattern.visits_document, List.map_map]
    rfl

/-- An address leads in the document of a grammar to the document of what it leads to in the
grammar. -/
theorem at?_plainDocument (g : Grammar) (a : Address) :
    g.plainDocument.at? a = (g.find? a).map Pattern.document := by
  cases a with
  | topLevel i path =>
      rw [Tree.at?, inner_plainDocument, List.getElem?_map, find?]
      cases g.topLevel[i]? with
      | none => rfl
      | some p => exact p.nested?_document path
  | entry name path =>
      have hrule : ((g.plainDocument.member? "repository").bind fun r => r.member? name) =
          (g.rule? name).map Pattern.document := by
        rw [member?_repository_plainDocument, rule?, Option.map_map]
        by_cases hnil : g.entries = []
        · rw [if_pos hnil, hnil]
          rfl
        · rw [if_neg hnil, Option.bind_some, member?, List.find?_map, Option.map_map]
          rfl
      rw [Tree.at?, hrule, find?]
      cases g.rule? name with
      | none => rfl
      | some p => exact p.nested?_document path

/-!
## Rendered documents
-/

theorem addressed_unmarkIncludes (g : Grammar) :
    g.unmarkIncludes.addressed = g.addressed.map fun v => (v.1, v.2.unmarked) := by
  have haddress : ∀ place, g.unmarkIncludes.address place = g.address place := by
    intro place
    cases place with
    | topLevel i path => rfl
    | entry i path =>
        rw [address, address, entries_unmarkIncludes, List.getElem?_map, Option.map_map]
        rfl
  rw [addressed, addressed, visits_unmarkIncludes, List.map_map, List.map_map]
  apply List.map_congr_left
  intro v _
  simp only [Function.comp_apply, haddress]

theorem find?_unmarkIncludes {g : Grammar} (hdiffer : g.names.Nodup) (a : Address) :
    g.unmarkIncludes.find? a = (g.find? a).map Pattern.unmarked := by
  ext p
  rw [← mem_addressed_iff (by rwa [names_unmarkIncludes]), addressed_unmarkIncludes,
    List.mem_map, Option.map_eq_some_iff]
  constructor
  · rintro ⟨⟨b, q⟩, hmem, heq⟩
    cases heq
    exact ⟨q, (mem_addressed_iff hdiffer).mp hmem, rfl⟩
  · rintro ⟨q, hfind, rfl⟩
    exact ⟨(a, q), (mem_addressed_iff hdiffer).mpr hfind, rfl⟩

theorem document_eq_plainDocument {g : Grammar} {t : Tree} (h : g.document = .ok t) :
    t = g.unmarkIncludes.plainDocument := by
  unfold document prepare at h
  cases hd : g.report.dangling? with
  | none =>
      simp only [hd] at h
      cases h
      rfl
  | some d =>
      simp only [hd] at h
      cases h

/-- A document mirrors its grammar.  The mappings of patterns that are met in the document are,
one by one, at the addresses of the patterns of the grammar and encode them; validation spells
the same addresses; no address occurs twice; an address leads to a mapping in the document
exactly if it leads to a pattern in the grammar, which that mapping encodes; and the document
shows the fields of the grammar. -/
theorem document_mirrors_patterns {g : Grammar} {t : Tree} (hread : g.IsRead)
    (h : g.document = .ok t) :
    List.Forall₂ (fun v m => m.1 = v.1 ∧ v.2.EncodedBy m.2) g.addressed t.patternVisits
      ∧ g.walk = g.addressed.map (fun v => (v.1.location, v.2))
      ∧ (g.addressed.map (·.1)).Nodup
      ∧ (∀ a p, (a, p) ∈ g.addressed ↔ g.find? a = some p)
      ∧ (∀ a u, (a, u) ∈ t.patternVisits ↔ t.at? a = some u)
      ∧ (∀ a, Option.Rel Pattern.EncodedBy (g.find? a) (t.at? a))
      ∧ Kind.grammar.Arranges g.Holds t := by
  have hdiffer : g.names.Nodup := hread.wellFormed.names
  have hvisits : t.patternVisits = g.addressed.map fun v => (v.1, v.2.unmarked.document) := by
    rw [document_eq_plainDocument h, patternVisits_plainDocument, addressed_unmarkIncludes,
      List.map_map]
    rfl
  have hat : ∀ a, t.at? a = (g.find? a).map fun p => p.unmarked.document := by
    intro a
    rw [document_eq_plainDocument h, at?_plainDocument, find?_unmarkIncludes hdiffer,
      Option.map_map]
    rfl
  refine ⟨?_, g.walk_eq_addressed, nodup_addressed hdiffer,
    fun a p => mem_addressed_iff hdiffer, ?_, ?_, ?_⟩
  · rw [hvisits, List.forall₂_map_right_iff, List.forall₂_same]
    intro v _
    exact ⟨rfl, v.2.encodedBy_document_unmarked⟩
  · intro a u
    rw [hvisits, hat, List.mem_map, Option.map_eq_some_iff]
    constructor
    · rintro ⟨⟨b, p⟩, hmem, heq⟩
      cases heq
      exact ⟨p, (mem_addressed_iff hdiffer).mp hmem, rfl⟩
    · rintro ⟨p, hfind, rfl⟩
      exact ⟨(a, p), (mem_addressed_iff hdiffer).mpr hfind, rfl⟩
  · intro a
    rw [hat]
    cases g.find? a with
    | none => exact .none
    | some p => exact .some p.encodedBy_document_unmarked
  · rw [document_eq_plainDocument h]
    exact g.arranges_plainDocument_unmarkIncludes

def layered : Grammar where
  header := ⟨none, none, "", none, none, none, "", "", "u"⟩
  patterns := some [.reference "", .matching ⟨none, "", some [("0", ⟨""⟩)]⟩]
  repository := some [("a/0", .block ⟨some "b", "", none, "", none, none, none⟩
    (some [.block ⟨none, "(", none, ")", none, none, none⟩ (some [.reference "!#a/0"])]))]

theorem layered_wellFormed : layered.WellFormed := by decide

/-- The innermost reference of such a grammar is encoded at its address in the document. -/
theorem layered_is_mirrored :
    layered.IsRead ∧ ∃ t u, layered.document = .ok t ∧ t.patternVisits.length = 5
      ∧ t.at? (.entry "a/0" [0, 0]) = some u ∧ (Pattern.reference "!#a/0").EncodedBy u := by
  have hread : layered.IsRead := layered_wellFormed.isRead rfl
  have hr := render_of_dangling?_eq_none (show layered.report.dangling? = none from rfl) .json
  rcases document_mirrors_patterns hread (document_of_render hr).1 with
    ⟨hvisits, _, _, _, _, hat, _⟩
  have hlength : layered.addressed.length = 5 := rfl
  have hencoded := hat (.entry "a/0" [0, 0])
  rw [show layered.find? (.entry "a/0" [0, 0]) = some (.reference "!#a/0") from rfl] at hencoded
  generalize hu : layered.unmarkIncludes.plainDocument.at? (.entry "a/0" [0, 0]) = found
    at hencoded
  cases hencoded with
  | some hencodes => exact ⟨hread, _, _, (document_of_render hr).1,
      hvisits.length_eq.symm.trans hlength, hu, hencodes⟩

end Grammar
end TextMate
