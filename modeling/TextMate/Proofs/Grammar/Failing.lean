import TextMate.Grammar.Source
import TextMate.Proofs.Yaml.Making
import TextMate.Proofs.Yaml.Misfit
import TextMate.Proofs.Yaml.Tokenizing

/-!
# How reading a grammar fails

A text that is no grammar is refused: it is no document, or its value is no
grammar.  A document can also fail in ways that are not meant, at an escape that
denotes more than a machine counts and at a scalar that does not fit its tag.
There are no other ways.
-/

namespace TextMate

open Text

namespace Yaml

/-- What makes a text fail in a way that is not meant. -/
inductive Cause (s : String) : Fault → Prop where
  | escape (h : HasHugeEscape s.toList) : Cause s .hugeCode
  | scalar {d : Document} {nodes : Nodes} {n : Nat} {fault : Fault}
      (hd : Document.ofText? s = .ok (some d)) (hnodes : MergedFrom d.nodes nodes)
      (h : Misfit nodes n fault) : Cause s fault

section Document

variable {s : String}

theorem concludes_ofText? (s : String) :
    Concludes (Stops s.toList) (fun _ => True) (Document.ofText? s) := by
  have htokens := tokenize_concludes s.toList
  rw [Document.ofText?]
  generalize tokenize s.toList = found at htokens ⊢
  rcases found with ⟨tokens, fault⟩
  have hready : Stops s.toList (fault.getD .emptyNumeral) ∨ HasEnd (tokens.drop 1) := by
    rcases htokens with ⟨fault', rfl, hstops⟩ | ⟨rfl, hend⟩
    · exact Or.inl hstops
    · exact Or.inr hend
  have hflaw : AllowsFlaws (Stops s.toList) := formlessFor_flaw
  have hfuel : 2 * tokens.length < 2 * tokens.length + 2 := by omega
  exact (@NodeReader.concludes_stream (Stops s.toList)
    ⟨tokens, fault.getD .emptyNumeral, [], #[], []⟩ hflaw _ hready hfuel).mono fun _ _ => trivial

/-- Reading a text fails only as it is meant to, or for a cause. -/
theorem concludes_read (s : String) :
    Concludes (FormlessFor (Cause s)) (fun _ => True) (read s) := by
  have hdocument := concludes_ofText? s
  rw [read]
  cases hd : Document.ofText? s with
  | error fault =>
      intro hformless
      rcases hdocument.of_error hd hformless with ⟨rfl, hescape⟩
      exact .escape hescape
  | ok document =>
      cases document with
      | none => trivial
      | some d =>
          have hallows : ObjectMaker.AllowsScalars (MergedFrom d.nodes)
              (FormlessFor (Cause s)) := by
            refine ⟨formlessFor_flaw, fun nodes n fault hnodes hvalue hformless => ?_, ?_⟩
            · have hmisfit := (concludes_scalarValue nodes n).of_error hvalue hformless
              exact .scalar hd hnodes hmisfit
            · exact fun nodes nodes' n hnodes hmerge => hnodes.merge hmerge
          exact (Document.concludes_objects hallows).bind fun _ _ => trivial

theorem Cause.isFormless {fault : Fault} (h : Cause s fault) : fault.isFormless = true := by
  cases h with
  | escape _ => rfl
  | scalar _ _ hmisfit => exact hmisfit.isFormless

end Document

end Yaml

namespace Grammar

/-- Whether reading a text gives a grammar, or says of the text that it is no document, that a value
in it is none of its type, or that it is no grammar.  What fails for want of form is not meant to
be told to anyone. -/
def EndsAsMeant (format : Format) (s : String) : Prop :=
  (∃ g, Grammar.ofText format s = .ok g)
    ∨ ∃ e, Grammar.ofText format s = .error e ∧ e.isFormless = false

theorem endsAsMeant_iff_read {format : Format} {s : String} :
    EndsAsMeant format s ↔ ∀ e, format.read s = .error e → e.isFormless = false := by
  rw [EndsAsMeant, Grammar.ofText]
  cases hread : format.read s with
  | error e =>
      constructor
      · rintro (⟨g, hg⟩ | ⟨e', he', hformed⟩)
        · cases hg
        · cases he'
          rintro _ ⟨⟩
          exact hformed
      · exact fun h => Or.inr ⟨e, rfl, h e rfl⟩
  | ok v =>
      have hok : ∀ e, (Except.ok v : Except SourceError Value) = .error e →
          e.isFormless = false := by
        rintro e ⟨⟩
      refine iff_of_true ?_ hok
      simp only [bind, Except.bind]
      split
      · cases Grammar.ofValue v with
        | error problems => exact Or.inr ⟨_, rfl, rfl⟩
        | ok g => exact Or.inl ⟨g, rfl⟩
      · exact Or.inr ⟨_, rfl, rfl⟩

/-- Reading a grammar ends as it is meant to, except where a document has an escape beyond what a
machine counts or a scalar that does not fit its tag.  In JSON it always does. -/
theorem endsAsMeant_iff (format : Format) (s : String) :
    EndsAsMeant format s ↔
      ¬ (format = .yaml ∧ ∃ fault, Yaml.read s = .error fault ∧ Yaml.Cause s fault) := by
  rw [endsAsMeant_iff_read]
  cases format with
  | json =>
      refine iff_of_true (fun e he => ?_) (fun h => nomatch h.1)
      rw [Format.read] at he
      cases hread : Json.read s with
      | error fault =>
          rw [hread] at he
          cases he
          rfl
      | ok v =>
          rw [hread] at he
          cases he
  | yaml =>
      rw [Format.read]
      cases hread : Yaml.read s with
      | error fault =>
          constructor
          · rintro hmeant ⟨_, _, ⟨⟩, hcause⟩
            have hformed := hmeant _ rfl
            rw [SourceError.isFormless, hcause.isFormless] at hformed
            cases hformed
          · rintro hcauses _ ⟨⟩
            refine Bool.eq_false_iff.mpr fun hformless => hcauses ⟨rfl, fault, rfl, ?_⟩
            exact (Yaml.concludes_read s).of_error hread hformless
      | ok v =>
          refine iff_of_true ?_ ?_
          · rintro _ ⟨⟩
          · rintro ⟨_, _, ⟨⟩, _⟩

end Grammar

end TextMate
