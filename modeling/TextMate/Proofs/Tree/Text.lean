import TextMate.Json.Tree
import TextMate.Value.Same

/-!
# Documents of texts

A document of texts has texts as its only scalars, has no empty collections, and
names the members of an object differently.  The documents of grammars are of
this kind.  Such a document has a value, which is what reading its printed form
gives back.
-/

namespace TextMate

namespace Tree

/-- Documents whose scalars are texts, whose collections are not empty, and whose objects name
each member differently. -/
inductive IsText : Tree → Prop where
  | text (s : String) : IsText (.text s)
  | list {items : List Tree} :
      items ≠ [] -> (∀ t ∈ items, IsText t) -> IsText (.list items)
  | object {members : List (String × Tree)} :
      members ≠ [] -> (members.map (·.1)).Nodup -> (∀ m ∈ members, IsText m.2) ->
        IsText (.object members)

/-- Documents whose scalars are texts and whose objects name each member differently. -/
inductive OfTexts : Tree → Prop where
  | text (s : String) : OfTexts (.text s)
  | list {items : List Tree} : (∀ t ∈ items, OfTexts t) -> OfTexts (.list items)
  | object {members : List (String × Tree)} :
      (members.map (·.1)).Nodup -> (∀ m ∈ members, OfTexts m.2) -> OfTexts (.object members)

theorem IsText.ofTexts {t : Tree} (h : t.IsText) : t.OfTexts := by
  induction h with
  | text s => exact .text s
  | list _ _ ih => exact .list ih
  | object _ hnodup _ ih => exact .object hnodup ih

mutual

/-- The value of a document. -/
def value : Tree → Value
  | null => .null
  | bool b => .bool b
  | int n => .int n
  | float x => .float x
  | text s => .text s
  | list items => .list (itemValues items)
  | object members => .dict (memberValues members)

def itemValues : List Tree → List Value
  | [] => []
  | item :: items => value item :: itemValues items

def memberValues : List (String × Tree) → List (Value × Value)
  | [] => []
  | (name, t) :: members => (.text name, value t) :: memberValues members

end

@[simp] theorem value_text (s : String) : (text s).value = .text s := rfl

theorem itemValues_eq_map (items : List Tree) : itemValues items = items.map value := by
  induction items with
  | nil => rfl
  | cons item items ih => rw [itemValues, ih, List.map_cons]

theorem memberValues_eq_map (members : List (String × Tree)) :
    memberValues members = members.map fun m => (.text m.1, m.2.value) := by
  induction members with
  | nil => rfl
  | cons m members ih => rw [memberValues, ih, List.map_cons]

@[simp] theorem value_list (items : List Tree) :
    (list items).value = .list (items.map value) := by
  rw [value, itemValues_eq_map]

@[simp] theorem value_object (members : List (String × Tree)) :
    (object members).value = .dict (members.map fun m => (.text m.1, m.2.value)) := by
  rw [value, memberValues_eq_map]

end Tree

namespace Value

@[simp] theorem same_text (a b : String) : (text a).same (text b) = (a == b) := by
  rw [same]

def entriesOf (members : List (String × Tree)) : List (Value × Value) :=
  members.map fun m => (.text m.1, m.2.value)

theorem setEntry_entriesOf {members : List (String × Tree)} {name : String}
    (h : name ∉ members.map (·.1)) (v : Value) :
    setEntry (entriesOf members) (.text name) v = entriesOf members ++ [(.text name, v)] := by
  have hno : ((entriesOf members).any fun e => (text name).same e.1) = false := by
    rw [entriesOf, List.any_map, List.any_eq_false]
    intro m hm heq
    simp only [Function.comp_apply, same_text, beq_iff_eq] at heq
    exact h (List.mem_map.mpr ⟨m, hm, heq.symm⟩)
  rw [setEntry, hno]
  rfl

theorem dictOf_entriesOf {members : List (String × Tree)} (h : (members.map (·.1)).Nodup) :
    dictOf (entriesOf members) = .dict (entriesOf members) := by
  have hfold : ∀ rest done : List (String × Tree), ((done ++ rest).map (·.1)).Nodup →
      (entriesOf rest).foldl (fun acc e => setEntry acc e.1 e.2) (entriesOf done) =
        entriesOf (done ++ rest) := by
    intro rest
    induction rest with
    | nil =>
        intro done _
        simp [entriesOf]
    | cons m rest ih =>
        intro done hnodup
        have hnew : m.1 ∉ done.map (·.1) := by
          rw [List.map_append, List.nodup_append] at hnodup
          intro hmem
          exact hnodup.2.2 m.1 hmem m.1 (by simp) rfl
        have hstep : entriesOf done ++ [(.text m.1, m.2.value)] = entriesOf (done ++ [m]) := by
          simp [entriesOf]
        show (entriesOf rest).foldl _ (setEntry (entriesOf done) (.text m.1) m.2.value) = _
        rw [setEntry_entriesOf hnew, hstep, ih (done ++ [m]) (by simpa using hnodup)]
        simp
  rw [dictOf]
  exact congrArg _ (hfold members [] h)

end Value
end TextMate
