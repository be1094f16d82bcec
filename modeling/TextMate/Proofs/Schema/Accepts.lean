import TextMate.Proofs.Schema.Named
import TextMate.Proofs.Tree.Text
import TextMate.Schema.Check

/-!
# What checks accept

A check accepts a document as something if it does so wherever the document
stands.  Documents are plain: they have no anchors, and each of their objects has
its members in the order of the fields of its kind, each under the document key
of the field.  For such documents every check of a field comes down to the check
of the document of that field.
-/

namespace TextMate
namespace Schema

/-!
## Verdicts
-/

namespace Verdict

variable {α β : Type}

@[simp] theorem map_accepted (f : α → β) (a : α) : f <$> accepted a = accepted (f a) := rfl

@[simp] theorem seq_accepted (f : α → β) (a : α) :
    accepted f <*> accepted a = accepted (f a) := rfl

@[simp] theorem seqLeft_accepted (a : α) (b : β) :
    accepted a <* accepted b = accepted a := rfl

theorem map_eq_accepted_iff {f : α → β} {v : Verdict α} {b : β} :
    f <$> v = accepted b ↔ ∃ a, v = accepted a ∧ f a = b := by
  cases v with
  | accepted a =>
      constructor
      · intro h
        cases h
        exact ⟨a, rfl, rfl⟩
      · rintro ⟨_, h, rfl⟩
        cases h
        rfl
  | rejected ps =>
      constructor
      · intro h
        cases h
      · rintro ⟨_, h, _⟩
        cases h

theorem seq_eq_accepted_iff {v : Verdict (α → β)} {w : Verdict α} {b : β} :
    v <*> w = accepted b ↔ ∃ f a, v = accepted f ∧ w = accepted a ∧ f a = b := by
  constructor
  · intro h
    cases v with
    | accepted f =>
        cases w with
        | accepted a =>
            cases h
            exact ⟨f, a, rfl, rfl, rfl⟩
        | rejected ps => cases h
    | rejected ps =>
        cases w with
        | accepted a => cases h
        | rejected qs => cases h
  · rintro ⟨f, a, rfl, rfl, rfl⟩
    rfl

theorem seqLeft_eq_accepted_iff {v : Verdict α} {w : Verdict β} {a : α} :
    v <* w = accepted a ↔ v = accepted a ∧ ∃ b, w = accepted b := by
  constructor
  · intro h
    cases v with
    | accepted a' =>
        cases w with
        | accepted b =>
            cases h
            exact ⟨rfl, b, rfl⟩
        | rejected ps => cases h
    | rejected ps =>
        cases w with
        | accepted b => cases h
        | rejected qs => cases h
  · rintro ⟨rfl, b, rfl⟩
    rfl

theorem all_map_accepted (as : List α) : all (as.map accepted) = accepted as := by
  induction as with
  | nil => rfl
  | cons a as ih =>
      rw [List.map_cons, all, ih]
      rfl

theorem all_eq_accepted {vs : List (Verdict α)} {as : List α} (h : all vs = accepted as) :
    vs = as.map accepted := by
  induction vs generalizing as with
  | nil =>
      cases h
      rfl
  | cons v vs ih =>
      rw [all, seq_eq_accepted_iff] at h
      rcases h with ⟨f, as', hf, hall, rfl⟩
      rcases map_eq_accepted_iff.mp hf with ⟨a, rfl, rfl⟩
      rw [ih hall, List.map_cons]

end Verdict

/-!
## Plain documents
-/

variable {α β κ π γ : Type}

/-- The check accepts the document as a certain thing wherever it stands. -/
def Accepts (check : Site → Verdict α) (t : Tree) (a : α) : Prop :=
  ∀ s : Site, s.value = t.value → s.number = none → check s = .accepted a

theorem resolve_value (t : Tree) (place : List Step) (number : Option Nat)
    (anchors : List (Nat × Value)) :
    (Site.mk t.value place number anchors).resolve = ⟨t.value, place, none, anchors⟩ := by
  cases t <;> rfl

theorem Accepts.child {check : Site → Verdict α} {t : Tree} {a : α} (h : Accepts check t a)
    (s : Site) (step : Step) : check (s.child step t.value) = .accepted a := by
  rw [Site.child, resolve_value]
  exact h _ rfl rfl

theorem Accepts.labelled {check : Site → Verdict α} {t : Tree} {a : α} (h : Accepts check t a)
    {s : Site} (hvalue : s.value = t.value) (hnumber : s.number = none) (steps : List Step) :
    check (s.labelled steps) = .accepted a :=
  h _ hvalue hnumber

theorem accepts_text (s : String) : Accepts Site.text (.text s) s := by
  intro site hvalue _
  rw [Site.text, hvalue, Tree.value_text]

theorem accepts_list {check : Site → Verdict β} {xs : List α} {doc : α → Tree} {f : α → β}
    (h : ∀ x ∈ xs, Accepts check (doc x) (f x)) :
    Accepts (Site.list check) (.list (xs.map doc)) (xs.map f) := by
  intro s hvalue _
  have hitems : s.items =
      some ((xs.map fun x => (doc x).value).mapIdx fun i v => s.child (.index i) v) := by
    rw [Site.items, hvalue, Tree.value_list, List.map_map]
    rfl
  have hall : (((xs.map fun x => (doc x).value).mapIdx fun i v =>
      s.child (.index i) v).map check) = (xs.map f).map Verdict.accepted := by
    apply List.ext_getElem
    · simp
    · intro i hi hj
      simp only [List.getElem_mapIdx, List.getElem_map]
      exact (h _ (List.getElem_mem _)).child s _
  rw [Site.list, hitems]
  show Verdict.all _ = _
  rw [hall, Verdict.all_map_accepted]

/-- A mapping is accepted if its names differ and what stands under them is accepted. -/
theorem accepts_mapping {check : Site → Verdict β} {es : List (String × α)} {doc : α → Tree}
    {f : α → β} (hnames : (es.map (·.1)).Nodup)
    (h : ∀ e ∈ es, Accepts check (doc e.2) (f e.2)) :
    Accepts (Site.mapping check) (.object (es.map fun e => (e.1, doc e.2)))
      (es.map fun e => (e.1, f e.2)) := by
  intro s hvalue _
  have hnames' : ((es.map fun e => (e.1, f e.2)).map (·.1)).Nodup := by
    simpa [Function.comp_def] using hnames
  have hall : ((es.map fun e => (Value.text e.1, (doc e.2).value)).map fun e : Value × Value =>
      Prod.mk <$> Site.text { s with
          value := e.1, place := s.place ++ [Step.ofKey e.1, .key "[key]"] }
        <*> check (s.child (Step.ofKey e.1) e.2)) =
      (es.map fun e => (e.1, f e.2)).map Verdict.accepted := by
    rw [List.map_map, List.map_map]
    refine List.map_congr_left fun e he => ?_
    simp only [Function.comp_apply]
    rw [(h e he).child]
    rfl
  rw [Site.mapping, hvalue, Tree.value_object, List.map_map]
  show Site.namedOf <$> Verdict.all (List.map _ (es.map _)) = _
  rw [show ((fun m : String × Tree => (Value.text m.1, m.2.value)) ∘
    fun e : String × α => (e.1, doc e.2)) = fun e => (Value.text e.1, (doc e.2).value) from rfl,
    hall, Verdict.all_map_accepted, Verdict.map_accepted, Site.namedOf_of_nodup hnames']

end Schema
end TextMate
