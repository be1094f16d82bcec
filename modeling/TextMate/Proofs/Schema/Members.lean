import TextMate.Proofs.Schema.Accepts

/-!
# Objects with their fields in order

The document of an object has for each field of its kind, in order, either the
document of that field under the key of the field or nothing.  Keys of different
fields differ, and the word for a field in calls is never the key of another one.
So every field is found where it stands, and no member is left over.
-/

namespace TextMate

def Kind.members (kind : Kind) (tree : Field → Option Tree) : List (String × Tree) :=
  kind.fields.filterMap fun f => (tree f).map fun t => (kind.key f, t)

namespace Kind

theorem key_inj (kind : Kind) :
    ∀ f ∈ kind.fields, ∀ g ∈ kind.fields, kind.key f = kind.key g → f = g := by
  cases kind <;> decide

theorem eq_of_label_eq_key (kind : Kind) :
    ∀ f ∈ kind.fields, ∀ g ∈ kind.fields, f.label = kind.key g → f = g := by
  cases kind <;> decide

theorem nodup_keys (kind : Kind) : (kind.fields.map kind.key).Nodup := by
  cases kind <;> decide

theorem mem_members_iff {kind : Kind} {tree : Field → Option Tree} {name : String} {t : Tree} :
    (name, t) ∈ kind.members tree ↔
      ∃ f ∈ kind.fields, tree f = some t ∧ kind.key f = name := by
  rw [members, List.mem_filterMap]
  constructor
  · rintro ⟨f, hf, h⟩
    rcases Option.map_eq_some_iff.mp h with ⟨u, hu, heq⟩
    cases heq
    exact ⟨f, hf, hu, rfl⟩
  · rintro ⟨f, hf, ht, rfl⟩
    exact ⟨f, hf, by rw [ht]; rfl⟩

theorem names_filterMap_sublist {κ β : Type} (name : Field → κ) (kept : Field → Option β)
    (fs : List Field) :
    ((fs.filterMap fun f => (kept f).map fun b => (name f, b)).map (·.1)).Sublist
      (fs.map name) := by
  induction fs with
  | nil => exact List.Sublist.refl _
  | cons f fs ih =>
      cases hf : kept f with
      | none =>
          rw [List.filterMap_cons_none (by rw [hf]; rfl), List.map_cons]
          exact ih.cons _
      | some b =>
          rw [List.filterMap_cons_some (by rw [hf]; rfl), List.map_cons, List.map_cons]
          exact ih.cons_cons _

theorem keys_members_sublist (kind : Kind) (tree : Field → Option Tree) :
    ((kind.members tree).map (·.1)).Sublist (kind.fields.map kind.key) :=
  names_filterMap_sublist kind.key tree kind.fields

theorem nodup_members (kind : Kind) (tree : Field → Option Tree) :
    ((kind.members tree).map (·.1)).Nodup :=
  (kind.keys_members_sublist tree).nodup kind.nodup_keys

theorem member?_members {kind : Kind} (tree : Field → Option Tree) {f : Field}
    (hf : f ∈ kind.fields) :
    (Tree.object (kind.members tree)).member? (kind.key f) = tree f := by
  ext t
  rw [Tree.member?, Schema.Site.find?_name_eq_some_iff (kind.nodup_members tree),
    mem_members_iff]
  constructor
  · rintro ⟨g, hg, ht, hkey⟩
    rw [← kind.key_inj g hg f hf hkey]
    exact ht
  · intro ht
    exact ⟨f, hf, ht, rfl⟩

theorem key_mem_members_iff {kind : Kind} (tree : Field → Option Tree) {f : Field}
    (hf : f ∈ kind.fields) :
    kind.key f ∈ (kind.members tree).map (·.1) ↔ (tree f).isSome := by
  rw [List.mem_map, Option.isSome_iff_exists]
  constructor
  · rintro ⟨⟨name, t⟩, hm, rfl⟩
    rcases mem_members_iff.mp hm with ⟨g, hg, ht, hkey⟩
    rw [← kind.key_inj g hg f hf hkey]
    exact ⟨t, ht⟩
  · rintro ⟨t, ht⟩
    exact ⟨(kind.key f, t), mem_members_iff.mpr ⟨f, hf, ht, rfl⟩, rfl⟩

end Kind

namespace Value

theorem lookup_entriesOf_eq_none {members : List (String × Tree)} {name : String}
    (h : name ∉ members.map (·.1)) : lookup (entriesOf members) (.text name) = none := by
  have hfind : (entriesOf members).find? (fun e => (text name).same e.1) = none := by
    rw [entriesOf, List.find?_map, Option.map_eq_none_iff, List.find?_eq_none]
    intro m hm heq
    simp only [Function.comp_apply, same_text, beq_iff_eq] at heq
    exact h (List.mem_map.mpr ⟨m, hm, heq.symm⟩)
  rw [lookup, hfind]
  rfl

theorem lookup_entriesOf {members : List (String × Tree)} (hnames : (members.map (·.1)).Nodup)
    {name : String} {t : Tree} (h : (name, t) ∈ members) :
    lookup (entriesOf members) (.text name) = some t.value := by
  induction members with
  | nil => cases h
  | cons m members ih =>
      rw [List.map_cons, List.nodup_cons] at hnames
      rw [entriesOf, List.map_cons, lookup, List.find?_cons, same_text]
      by_cases heq : name = m.1
      · have hm : m = (name, t) := by
          rcases List.mem_cons.mp h with rfl | h
          · rfl
          · exact absurd (List.mem_map.mpr ⟨_, h, heq⟩) hnames.1
        simp [hm]
      · have hmem : (name, t) ∈ members := by
          rcases List.mem_cons.mp h with rfl | h
          · exact absurd rfl heq
          · exact h
        rw [beq_false_of_ne heq]
        exact ih hnames.2 hmem

end Value

namespace Schema

open Value

variable {α β : Type}

theorem Site.findField_members {kind : Kind} {f : Field} (hf : f ∈ kind.fields)
    (tree : Field → Option Tree) :
    Site.findField (entriesOf (kind.members tree)) (kind.key f) f.label =
      (tree f).map fun t => (kind.key f, t.value) := by
  cases ht : tree f with
  | none =>
      have habsent : ∀ name, (∀ g ∈ kind.fields, name = kind.key g → f = g) →
          lookup (entriesOf (kind.members tree)) (.text name) = none := by
        intro name hname
        apply lookup_entriesOf_eq_none
        intro hmem
        rcases List.mem_map.mp hmem with ⟨⟨n, t⟩, hm, rfl⟩
        rcases Kind.mem_members_iff.mp hm with ⟨g, hg, htree, hkey⟩
        rw [← hname g hg hkey.symm, ht] at htree
        cases htree
      rw [Site.findField]
      simp only [habsent _ (kind.key_inj f hf), habsent _ (kind.eq_of_label_eq_key f hf)]
      rfl
  | some t =>
      have hmem : (kind.key f, t) ∈ kind.members tree :=
        Kind.mem_members_iff.mpr ⟨f, hf, ht, rfl⟩
      rw [Site.findField]
      simp only [lookup_entriesOf (kind.nodup_members tree) hmem]
      rfl

namespace Form

def ofMembers (kind : Kind) (s : Site) (tree : Field → Option Tree) : Form :=
  ⟨kind, s, entriesOf (kind.members tree)⟩

variable {kind : Kind} {tree : Field → Option Tree} {f : Field}

theorem required_ofMembers (s : Site) (hf : f ∈ kind.fields) {t : Tree} (ht : tree f = some t)
    {check : Site → Verdict α} {a : α} (h : Accepts check t a) :
    (ofMembers kind s tree).required f check = .accepted a := by
  have hfind := Site.findField_members hf tree
  rw [ht] at hfind
  simp only [required, ofMembers, Site.required, hfind]
  exact h.child s _

theorem optional_ofMembers (s : Site) (hf : f ∈ kind.fields) {x : Option α}
    {doc : α → Tree} (ht : tree f = x.map doc) {check : Site → Verdict β} {g : α → β}
    (hnull : ∀ a, (doc a).value ≠ .null) (h : ∀ a, x = some a → Accepts check (doc a) (g a)) :
    (ofMembers kind s tree).optional f check = .accepted (x.map g) := by
  have hfind := Site.findField_members hf tree
  rw [ht] at hfind
  cases x with
  | none =>
      simp only [optional, ofMembers, Site.defaulted, hfind]
      rfl
  | some a =>
      have haccepts : Accepts (Site.optional check) (doc a) (some (g a)) := by
        intro site hvalue hnumber
        rw [Site.optional]
        split
        · rename_i hv
          exact absurd (hvalue.symm.trans hv) (hnull a)
        · rw [h a rfl site hvalue hnumber]
          rfl
      simp only [optional, ofMembers, Site.defaulted, hfind]
      exact haccepts.child s _

/-- A field with a value of its own is accepted as what its document is accepted as. -/
theorem defaulted_ofMembers (s : Site) (hf : f ∈ kind.fields) {t : Tree} (ht : tree f = some t)
    {check : Site → Verdict α} {a : α} (h : Accepts check t a) (default : α) :
    (ofMembers kind s tree).defaulted f default check = .accepted a := by
  have hfind := Site.findField_members hf tree
  rw [ht] at hfind
  simp only [defaulted, ofMembers, Site.defaulted, hfind]
  exact h.child s _

theorem closed_ofMembers (s : Site) : (ofMembers kind s tree).closed = .accepted () := by
  have hused : ∀ e ∈ entriesOf (kind.members tree), ∃ name, e.1 = .text name
      ∧ name ∈ (kind.fields.map fun f => (kind.key f, f.label)).filterMap
        fun f => (Site.findField (entriesOf (kind.members tree)) f.1 f.2).map (·.1) := by
    intro e he
    rcases List.mem_map.mp he with ⟨⟨name, t⟩, hm, rfl⟩
    rcases Kind.mem_members_iff.mp hm with ⟨f, hf, ht, rfl⟩
    refine ⟨_, rfl, List.mem_filterMap.mpr ⟨_, List.mem_map.mpr ⟨f, hf, rfl⟩, ?_⟩⟩
    rw [Site.findField_members hf, ht]
    rfl
  rw [closed, Site.noExtras]
  split
  · rfl
  · rename_i hne
    refine absurd ?_ hne
    rw [ofMembers, List.filterMap_eq_nil_iff]
    intro e he
    rcases hused e he with ⟨name, hname, hmem⟩
    rw [hname]
    exact if_pos (List.contains_iff_mem.mpr hmem)

theorem check_ofMembers {s : Site} (hvalue : s.value = (Tree.object (kind.members tree)).value)
    (fields : Form → Verdict α) : check kind s fields = fields (ofMembers kind s tree) := by
  have hbroken : ((kind.members tree).map fun m => (Value.text m.1, m.2.value)).any
      (fun e => isBroken e.1) = false := by
    rw [List.any_map, List.any_eq_false]
    intro m _
    simp [isBroken]
  rw [check, hvalue, Tree.value_object]
  simp only [Site.entries?, hbroken, Bool.and_false]
  rfl

end Form

theorem PatternTag.ofEntries_of_texts {es : List (Value × Value)} {names : List String}
    (hkeys : es.map (·.1) = names.map .text) :
    PatternTag.ofEntries es =
      if "include" ∈ names then .reference
      else if "begin" ∈ names ∨ "end" ∈ names then .block
      else .matching := by
  have hhas : ∀ name, (es.any fun e => (Value.text name).same e.1) = true ↔ name ∈ names := by
    intro name
    have hany : (es.any fun e => (Value.text name).same e.1) =
        (es.map (·.1)).any (Value.text name).same := by
      rw [List.any_map]
      rfl
    rw [hany, hkeys, List.any_map, List.any_eq_true]
    constructor
    · rintro ⟨other, hother, heq⟩
      rw [Function.comp_apply, same_text, beq_iff_eq] at heq
      exact heq ▸ hother
    · intro hmem
      exact ⟨name, hmem, by rw [Function.comp_apply, same_text, beq_iff_eq]⟩
  simp only [ofEntries, Bool.or_eq_true, hhas]

theorem PatternTag.ofEntries_entriesOf (members : List (String × Tree)) :
    PatternTag.ofEntries (entriesOf members) =
      if "include" ∈ members.map (·.1) then .reference
      else if "begin" ∈ members.map (·.1) ∨ "end" ∈ members.map (·.1) then .block
      else .matching := by
  apply ofEntries_of_texts
  rw [entriesOf, List.map_map, List.map_map]
  rfl

/-!
## Patterns by their form
-/

section Forms

variable {s : Site} {es : List (Value × Value)} {n : Nat} {opened : List Nat}

theorem checkPattern_matching (hvalue : s.value = .dict es)
    (htag : PatternTag.ofEntries es = .matching) :
    checkPattern Grammar.assembly n opened s =
      checkMatching Grammar.assembly (s.labelled [.key PatternTag.matching.word]) := by
  unfold checkPattern
  simp only [hvalue, htag]
  rfl

theorem checkPattern_reference (hvalue : s.value = .dict es)
    (htag : PatternTag.ofEntries es = .reference) :
    checkPattern Grammar.assembly n opened s =
      checkReference Grammar.assembly (s.labelled [.key PatternTag.reference.word]) := by
  unfold checkPattern
  simp only [hvalue, htag]
  rfl

theorem checkPattern_block_zero (hvalue : s.value = .dict es)
    (htag : PatternTag.ofEntries es = .block) :
    checkPattern Grammar.assembly 0 opened s =
      (s.labelled [.key PatternTag.block.word]).reject .recursion := by
  unfold checkPattern
  simp only [hvalue, htag]
  rfl

theorem checkPattern_block_succ (hvalue : s.value = .dict es)
    (htag : PatternTag.ofEntries es = .block) (hnumber : s.number = none) :
    checkPattern Grammar.assembly (n + 1) opened s =
      checkBlock Grammar.assembly (checkPattern Grammar.assembly n opened)
        (s.labelled [.key PatternTag.block.word]) := by
  rw [checkPattern]
  simp only [hvalue, htag, hnumber]
  rfl

end Forms

end Schema
end TextMate
