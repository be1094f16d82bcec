import TextMate.Proofs.Yaml.Reading
import TextMate.Proofs.Yaml.Values

/-!
# Reading printed documents

A printed document of texts can be read exactly if none of its keys in front of a
colon is too long.  It is then read with its texts as they have been written.  So
it is read as it is exactly if every text is kept where it stands.
-/

namespace TextMate
namespace Yaml

open Schema

section Print

variable {members : List (String × Tree)}

/-- A printed object without too long a key is read with its texts as they are read. -/
theorem read_print (h : (Tree.object members).IsText) (hfits : KeysFit (.object members)) :
    read (print (.object members)) =
      .ok (Tree.object (rereadMembers 0 members)).merged.value := by
  have htexts : ∀ m ∈ members, m.2.IsText := by
    cases h with
    | object _ _ hmembers => exact hmembers
  rcases tokenize_print h with ⟨_, tokens, htokens, hkinds⟩ | ⟨hnot, _⟩
  · rcases @NodeReader.readStream_object members htexts (2 * tokens.length + 2) .emptyNumeral
      tokens hkinds (by omega) with ⟨d, hread, hroot, hrepresents⟩
    have hdocument : Document.ofText? (print (.object members)) = .ok (some d) := by
      rw [Document.ofText?, htokens]
      exact hread
    rw [read, hdocument]
    exact Document.value_of_represents hroot hrepresents
  · exact absurd hfits hnot

theorem read_print_ne_ok (h : (Tree.object members).IsText)
    (hfits : ¬ KeysFit (.object members)) (v : Value) :
    read (print (.object members)) ≠ .ok v := by
  rcases tokenize_print h with ⟨hyes, _⟩ | ⟨_, tokens, fault, htokens, hunfinished⟩
  · exact absurd hyes hfits
  · rw [read]
    cases hd : Document.ofText? (print (.object members)) with
    | error fault => rintro ⟨⟩
    | ok d =>
        rw [Document.ofText?, htokens] at hd
        have hend : ¬ HasEnd tokens := hunfinished
        exact absurd hd (NodeReader.readStream_unfinished hend (by dsimp only; omega) d)

end Print

/-!
## Documents that are kept
-/

mutual

/-- Every text of a document inside a collection at a column is read as it is. -/
def KeepsTexts (column : Nat) (level : Bool) : Tree → Prop
  | .text s => IsKept (column + 2) s
  | .list items => KeepsItems (if level then column else column + 2) items
  | .object members => KeepsMembers (column + 2) members
  | _ => True

def KeepsItems (column : Nat) : List Tree → Prop
  | [] => True
  | item :: items => KeepsTexts column false item ∧ KeepsItems column items

/-- Every text in the members of an object at a column is read as it is, and so is every name that
does not stand in front of its colon without a sign. -/
def KeepsMembers (column : Nat) : List (String × Tree) → Prop
  | [] => True
  | (name, t) :: members =>
      (isSimpleName name = false → IsKept (column + 2) name)
        ∧ KeepsTexts column (isSimpleName name) t ∧ KeepsMembers column members

end

mutual

def decidableKeepsTexts (column : Nat) (level : Bool) :
    (t : Tree) → Decidable (KeepsTexts column level t)
  | .text s => inferInstanceAs (Decidable (IsKept (column + 2) s))
  | .list items => decidableKeepsItems (if level then column else column + 2) items
  | .object members => decidableKeepsMembers (column + 2) members
  | .null => .isTrue trivial
  | .bool _ => .isTrue trivial
  | .int _ => .isTrue trivial
  | .float _ => .isTrue trivial

def decidableKeepsItems (column : Nat) : (items : List Tree) → Decidable (KeepsItems column items)
  | [] => .isTrue trivial
  | item :: items =>
      @instDecidableAnd _ _ (decidableKeepsTexts column false item)
        (decidableKeepsItems column items)

def decidableKeepsMembers (column : Nat) :
    (members : List (String × Tree)) → Decidable (KeepsMembers column members)
  | [] => .isTrue trivial
  | (name, t) :: members =>
      @instDecidableAnd _ _ inferInstance
        (@instDecidableAnd _ _ (decidableKeepsTexts column (isSimpleName name) t)
          (decidableKeepsMembers column members))

end

instance (column : Nat) (members : List (String × Tree)) :
    Decidable (KeepsMembers column members) :=
  decidableKeepsMembers column members

theorem rereadText_name_eq_self_iff (indent : Nat) (name : String) :
    rereadText (isSimpleName name) indent name = name ↔
      (isSimpleName name = false → IsKept indent name) := by
  cases isSimpleName name with
  | true => exact iff_of_true (rereadText_key indent name) (by rintro ⟨⟩)
  | false =>
      rw [rereadText_eq_self_iff]
      exact ⟨fun h _ => h, fun h => h rfl⟩

theorem length_mergedMembers_rereadMembers (column : Nat) (members : List (String × Tree)) :
    (Tree.mergedMembers (rereadMembers column members)).length = members.length := by
  induction members with
  | nil => rfl
  | cons m members ih =>
      rw [rereadMembers, Tree.mergedMembers, List.length_cons, List.length_cons, ih]

theorem merged_object_eq_self_iff {column : Nat} {members : List (String × Tree)}
    (hnames : (members.map (·.1)).Nodup)
    (h : Tree.mergedMembers (rereadMembers column members) = members ↔
      KeepsMembers column members) :
    (Tree.object (rereadMembers column members)).merged = .object members ↔
      KeepsMembers column members := by
  rw [Tree.merged, Tree.object.injEq,
    Site.namedOf_eq_iff hnames (length_mergedMembers_rereadMembers column members), h]

mutual

/-- A document is read as it is exactly if all of its texts are. -/
theorem merged_reread_eq_self_iff : ∀ {t : Tree}, t.IsText → ∀ (column : Nat) (level : Bool),
    (reread column level t).merged = t ↔ KeepsTexts column level t
  | .text s, _, column, level => by
      rw [reread, KeepsTexts, Tree.merged_text, Tree.text.injEq, rereadText_eq_self_iff]
  | .list items, h, column, level => by
      cases h with
      | list _ hitems =>
          rw [reread, KeepsTexts, Tree.merged, Tree.list.injEq]
          exact merged_rereadItems_eq_self_iff items hitems _
  | .object members, h, column, level => by
      cases h with
      | object _ hnames hmembers =>
          rw [reread, KeepsTexts]
          exact merged_object_eq_self_iff hnames
            (mergedMembers_rereadMembers_eq_self_iff members hmembers _)
  | .null, h, _, _ => nomatch h
  | .bool _, h, _, _ => nomatch h
  | .int _, h, _, _ => nomatch h
  | .float _, h, _, _ => nomatch h

theorem merged_rereadItems_eq_self_iff : ∀ (items : List Tree), (∀ t ∈ items, t.IsText) →
    ∀ (column : Nat), Tree.mergedItems (rereadItems column items) = items ↔
      KeepsItems column items
  | [], _, column => by
      rw [rereadItems, KeepsItems, Tree.mergedItems]
      exact iff_of_true rfl trivial
  | item :: items, hitems, column => by
      rw [rereadItems, KeepsItems, Tree.mergedItems, List.cons.injEq,
        merged_reread_eq_self_iff (hitems item List.mem_cons_self),
        merged_rereadItems_eq_self_iff items fun t ht => hitems t (List.mem_cons_of_mem _ ht)]

theorem mergedMembers_rereadMembers_eq_self_iff : ∀ (members : List (String × Tree)),
    (∀ m ∈ members, m.2.IsText) → ∀ (column : Nat),
      Tree.mergedMembers (rereadMembers column members) = members ↔ KeepsMembers column members
  | [], _, column => by
      rw [rereadMembers, KeepsMembers, Tree.mergedMembers]
      exact iff_of_true rfl trivial
  | (name, t) :: members, hmembers, column => by
      rw [rereadMembers, KeepsMembers, Tree.mergedMembers, List.cons.injEq, Prod.mk.injEq,
        rereadText_name_eq_self_iff, and_assoc,
        merged_reread_eq_self_iff (hmembers (name, t) List.mem_cons_self),
        mergedMembers_rereadMembers_eq_self_iff members fun m hm =>
          hmembers m (List.mem_cons_of_mem _ hm)]

end

end Yaml
end TextMate
