import TextMate.Grammar.Render
import TextMate.Proofs.Grammar.CheckDocument
import TextMate.Proofs.Grammar.Checked
import TextMate.Proofs.Json.ReadPrint

/-!
# Reading rendered grammars

A rendered grammar is read back as the grammar without its marks and its empty
fields, in whatever format its document can be read.  The indented layout of JSON
can always be read.
-/

namespace TextMate
namespace Grammar

/-- A text that is read as the document of a grammar describes the grammar without its empty
fields. -/
theorem ofText_of_read {format : Format} {s : String} {g : Grammar} (h : g.WellFormed)
    (hread : format.read s = .ok g.plainDocument.value) :
    Grammar.ofText format s = .ok g.withoutEmpty := by
  have hbare : g.plainDocument.value.bare = .dict (Value.entriesOf
      (Kind.grammar.members g.fieldTree)) := by
    rw [plainDocument_eq_members, Tree.value_object]
    rfl
  rw [Grammar.ofText, hread]
  simp only [bind, Except.bind]
  rw [hbare]
  dsimp only
  rw [h.ofValue_plainDocument]
  rfl

/-- A grammar rendered as JSON is read back as the grammar without its marks and without its
empty fields, everything in its order. -/
theorem json_rendering_reads_back {g : Grammar} {r : Rendering} (hread : g.IsRead)
    (h : g.render .json = .ok r) :
    Grammar.ofText .json r.text = .ok g.unmarkIncludes.withoutEmpty := by
  have hwell := hread.wellFormed.unmarkIncludes
  rw [(document_of_render h).2]
  refine ofText_of_read hwell ?_
  rw [Format.read, Format.print, Json.read_print hwell.isText_plainDocument]
  rfl

/-!
## A grammar with empty fields
-/

open Schema

def sparseBlockValue : Value :=
  .dict [(.text "begin", .text "\"\n"), (.text "end", .text ""), (.text "contentName", .text ""),
    (.text "patterns", .list [.dict [(.text "include", .text "!!source.y")]])]

def sparseValue : Value :=
  .dict [(.text "name", .text ""), (.text "scopeName", .text "source.x"), (.text "uuid", .text ""),
    (.text "patterns", .list [sparseBlockValue]), (.text "repository", .dict [])]

def sparseBlock : Pattern :=
  .block ⟨none, "\"\n", none, "", none, none, some ""⟩ (some [.reference "!!source.y"])

def sparse : Grammar where
  header := ⟨none, some "", "source.x", none, none, none, "", "", ""⟩
  patterns := some [sparseBlock]
  repository := some []

theorem checkPattern_sparseBlockValue (s : Site) (hvalue : s.value = sparseBlockValue)
    (hnumber : s.number = none) :
    checkPattern assembly maxNesting [] s = .accepted sparseBlock := by
  have hnesting : maxNesting = 253 + 1 + 1 := rfl
  rw [sparseBlockValue] at hvalue
  simp [assembly, Site.resolve, Form.check, Site.entries?, Form.isBroken, Form.optional,
    Form.required, Site.defaulted, Site.required, Site.findField, Value.lookup, Kind.key,
    Field.documentKey, Field.label, Site.optional, Site.child, Site.text, Form.closed,
    Site.noExtras, Kind.fields, Site.list, Site.items, Verdict.all, checkPattern,
    PatternTag.ofEntries, checkBlock, Site.labelled, checkBlockRule, checkReference, hnesting,
    hvalue, hnumber, sparseBlock]

theorem ofValue_sparseValue : Grammar.ofValue sparseValue = .ok sparse := by
  have hgiven : ∀ v, assembly.grammarGiven v = none := fun _ => rfl
  have hgrammar : assembly.grammar = Grammar.mk := rfl
  have hpatterns : checkPatterns assembly ⟨.list [sparseBlockValue], [.key "patterns"], none, []⟩ =
      .accepted [sparseBlock] := by
    have hblock : ∀ s step, checkPattern assembly maxNesting [] (Site.child s step
        sparseBlockValue) = .accepted sparseBlock :=
      fun s step => checkPattern_sparseBlockValue _ rfl rfl
    simp [checkPatterns, Site.list, Site.items, Verdict.all, hblock]
  simp [sparseValue, sparse, Grammar.ofValue, checkGrammar, Site.top, Site.resolve,
    Form.check, Site.entries?, Form.isBroken, checkHeader, Form.optional, Form.required,
    Form.defaulted, Site.defaulted, Site.required, Site.findField, Value.lookup, Kind.key,
    Field.documentKey, Field.label, Site.optional, Site.child, Site.text, Form.closed,
    Site.noExtras, Kind.fields, Site.mapping, Verdict.all, Site.namedOf, Verdict.toExcept,
    hpatterns, hgiven, hgrammar]

/-- The rendered grammar has lost one mark and all fields that were empty, and nothing else. -/
theorem sparse_reads_back :
    sparse.IsRead ∧ ∃ r, sparse.render .json = .ok r
      ∧ Grammar.ofText .json r.text = .ok
        { header := ⟨none, none, "source.x", none, none, none, "", "", ""⟩
          patterns := some [.block ⟨none, "\"\n", none, "", none, none, none⟩
            (some [.reference "!source.y"])]
          repository := none } := by
  have hread : sparse.IsRead := Or.inl ⟨sparseValue, ofValue_sparseValue⟩
  have hr := render_of_dangling?_eq_none (show sparse.report.dangling? = none from rfl) .json
  exact ⟨hread, _, hr, json_rendering_reads_back hread hr⟩

end Grammar
end TextMate
