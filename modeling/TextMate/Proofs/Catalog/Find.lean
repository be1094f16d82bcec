import TextMate.Proofs.Catalog.Work
import TextMate.Proofs.Files.PathText

/-!
# Files of names

The file of a name is the name with one of three suffixes.  No suffix ends in
another one, so files of different names are different.  Which file is found
depends on nothing but what is at these places, and so does what is loaded from
it.
-/

namespace TextMate
namespace Catalog

open Files

/-- A text that can be the name of a file without its suffix. -/
def IsStem (name : String) : Prop :=
  '/' ∉ name.toList

instance (name : String) : Decidable (IsStem name) :=
  inferInstanceAs (Decidable (¬ _))

variable {name other suffix suffix' : String} {files files' : Store} {directory p : Path}
  {c : Catalog}

/-- A stem with something behind that has no slash and does not end in a point is a name. -/
theorem IsStem.isName_append (h : IsStem name) {last : Char} (hslash : '/' ∉ suffix.toList)
    (hlast : suffix.toList.getLast? = some last) (hpoint : last ≠ '.') :
    IsName (name ++ suffix) := by
  have hgetLast : (name ++ suffix).toList.getLast? = some last := by
    rw [String.toList_append, List.getLast?_append, hlast]
    rfl
  rcases not_points_of_getLast? hgetLast hpoint with ⟨hnonempty, hhere, habove⟩
  constructor
  · rw [String.toList_append, List.mem_append]
    rintro (hmem | hmem)
    · exact h hmem
    · exact hslash hmem
  · exact hnonempty
  · exact hhere
  · exact habove

theorem last_of_mem_suffixes (h : suffix ∈ suffixes) :
    '/' ∉ suffix.toList ∧ ∃ last, suffix.toList.getLast? = some last ∧ last ≠ '.' := by
  simp only [suffixes, List.mem_cons, List.not_mem_nil, or_false] at h
  rcases h with rfl | rfl | rfl
  · exact ⟨by decide, 'l', rfl, by decide⟩
  · exact ⟨by decide, 'l', rfl, by decide⟩
  · exact ⟨by decide, 'n', rfl, by decide⟩

theorem extension_of_mem_suffixes (h : suffix ∈ suffixes) :
    ∃ extension, suffix = String.ofList ('.' :: extension) ∧ extension ≠ []
      ∧ '.' ∉ extension := by
  simp only [suffixes, List.mem_cons, List.not_mem_nil, or_false] at h
  rcases h with rfl | rfl | rfl
  · exact ⟨"yaml".toList, rfl, by decide, by decide⟩
  · exact ⟨"yml".toList, rfl, by decide, by decide⟩
  · exact ⟨"json".toList, rfl, by decide, by decide⟩

theorem lowercase_of_mem_suffixes (h : suffix ∈ suffixes) : Text.lowercase suffix = suffix := by
  simp only [suffixes, List.mem_cons, List.not_mem_nil, or_false] at h
  rcases h with rfl | rfl | rfl <;> decide

theorem IsStem.isName (h : IsStem name) (hsuffix : suffix ∈ suffixes) :
    IsName (name ++ suffix) := by
  rcases last_of_mem_suffixes hsuffix with ⟨hslash, last, hlast, hpoint⟩
  exact h.isName_append hslash hlast hpoint

theorem suffix_of_name_eq {front : String} (hsuffix : suffix ∈ suffixes)
    (hname : p.name = front ++ suffix) : p.suffix = if front = "" then "" else suffix := by
  rcases extension_of_mem_suffixes hsuffix with ⟨extension, rfl, hextension, hno⟩
  rw [Path.suffix, hname, String.toList_append, String.toList_ofList]
  split
  · rename_i hempty
    rw [hempty]
    rw [show ("" : String).toList ++ '.' :: extension = '.' :: extension from rfl,
      Path.splitSuffix_point hno]
  · rename_i hfront
    have hchars : front.toList ≠ [] := by
      rwa [ne_eq, String.toList_eq_nil_iff]
    rw [Path.splitSuffix_append_point hchars hextension hno]

theorem eq_of_append_suffix_eq (hsuffix : suffix ∈ suffixes) (hsuffix' : suffix' ∈ suffixes)
    (h : name ++ suffix = other ++ suffix') : name = other := by
  have hlists : name.toList ++ suffix.toList = other.toList ++ suffix'.toList := by
    rw [← String.toList_append, h, String.toList_append]
  have hreverse : suffix.toList.reverse ++ name.toList.reverse =
      suffix'.toList.reverse ++ other.toList.reverse := by
    rw [← List.reverse_append, hlists, List.reverse_append]
  simp only [suffixes, List.mem_cons, List.not_mem_nil, or_false] at hsuffix hsuffix'
  rcases hsuffix with rfl | rfl | rfl <;> rcases hsuffix' with rfl | rfl | rfl <;>
    simp_all [String.toList_inj]

theorem fileIn?_eq_some (h : fileIn? files directory name = some p) :
    ∃ suffix ∈ suffixes, p = directory.join (name ++ suffix) ∧ files.contains p = true := by
  rcases List.mem_map.mp (List.mem_of_find?_eq_some h) with ⟨suffix, hsuffix, rfl⟩
  exact ⟨suffix, hsuffix, rfl, List.find?_some h⟩

theorem fileIn?_eq_none_iff :
    fileIn? files directory name = none ↔
      ∀ suffix ∈ suffixes, files.contains (directory.join (name ++ suffix)) = false := by
  unfold fileIn?
  rw [List.find?_eq_none, List.forall_mem_map]
  simp

theorem fileIn?_eq_none (hname : IsStem name) (h : files.contains directory = false) :
    fileIn? files directory name = none := by
  rw [fileIn?_eq_none_iff]
  intro suffix hsuffix
  by_contra hne
  rw [Bool.not_eq_false] at hne
  rcases Store.place_of_contains_join (hname.isName hsuffix) hne with ⟨q, hplace, hget⟩
  have hcontains : files.contains directory = true :=
    Store.contains_iff.mpr ⟨_, Store.find?_eq_some_iff.mpr ⟨q, hplace, hget⟩⟩
  rw [h] at hcontains
  cases hcontains

def directories (c : Catalog) : List Path :=
  c.project.toList ++ [c.library]

theorem findFile?_eq (hname : IsStem name) :
    c.findFile? name = c.directories.findSome? fun directory => fileIn? c.files directory name := by
  unfold findFile?
  apply congrArg (List.findSome? · c.directories)
  funext directory
  split
  · rfl
  · rename_i hmissing
    rw [fileIn?_eq_none hname (by simpa using hmissing)]

/-- A file that is found has the name with one of the suffixes, in one of the directories. -/
theorem findFile?_eq_some (h : c.findFile? name = some p) :
    ∃ directory ∈ c.directories, ∃ suffix ∈ suffixes,
      p = directory.join (name ++ suffix) ∧ c.files.contains p = true := by
  rcases List.exists_of_findSome?_eq_some h with ⟨directory, hmem, hfile⟩
  split at hfile
  · rcases fileIn?_eq_some hfile with ⟨suffix, hsuffix, rfl, hcontains⟩
    exact ⟨directory, hmem, suffix, hsuffix, rfl, hcontains⟩
  · cases hfile

theorem format_of_findFile? (h : c.findFile? name = some p) :
    p.format = if p.suffix = ".json" then .json else .yaml := by
  rcases findFile?_eq_some h with ⟨directory, _, suffix, hsuffix, rfl, _⟩
  rcases last_of_mem_suffixes hsuffix with ⟨hslash, last, hlast, hpoint⟩
  rcases directory.name_join_append name hslash hlast hpoint with ⟨front, hname⟩
  rw [Path.format, suffix_of_name_eq hsuffix hname]
  split
  · decide
  · rw [lowercase_of_mem_suffixes hsuffix]
    simp

/-- The same is found where a file of the name may be. -/
def SameFor (c c' : Catalog) (name : String) : Prop :=
  c'.directories = c.directories ∧ ∀ directory ∈ c.directories, ∀ suffix ∈ suffixes,
    c'.files.find? (directory.join (name ++ suffix)) =
      c.files.find? (directory.join (name ++ suffix))

theorem findSome?_congr_of_mem {α β : Type} {f g : α → Option β} {as : List α}
    (h : ∀ a ∈ as, f a = g a) : as.findSome? f = as.findSome? g := by
  induction as with
  | nil => rfl
  | cons a as ih =>
      rw [List.findSome?_cons, List.findSome?_cons, h a List.mem_cons_self,
        ih fun b hb => h b (List.mem_cons_of_mem a hb)]

theorem find?_congr_of_mem {α : Type} {f g : α → Bool} {as : List α}
    (h : ∀ a ∈ as, f a = g a) : as.find? f = as.find? g := by
  induction as with
  | nil => rfl
  | cons a as ih =>
      rw [List.find?_cons, List.find?_cons, h a List.mem_cons_self,
        ih fun b hb => h b (List.mem_cons_of_mem a hb)]

theorem SameFor.findFile?_eq {c c' : Catalog} (h : SameFor c c' name) (hname : IsStem name) :
    c'.findFile? name = c.findFile? name := by
  rw [Catalog.findFile?_eq hname, Catalog.findFile?_eq hname, h.1]
  apply findSome?_congr_of_mem
  intro directory hmem
  apply find?_congr_of_mem
  intro p hp
  rcases List.mem_map.mp hp with ⟨suffix, hsuffix, rfl⟩
  rw [Store.contains, Store.contains, h.2 directory hmem suffix hsuffix]

theorem SameFor.loaded_eq {c c' : Catalog} (h : SameFor c c' name) {g : Grammar}
    (hfind : c.findFile? name = some p) (hload : loaded c.files p = .ok g) :
    loaded c'.files p = .ok g := by
  rcases findFile?_eq_some hfind with ⟨directory, hmem, suffix, hsuffix, rfl, _⟩
  rcases find?_of_loaded hload with ⟨bytes, hbytes⟩
  rw [loaded_eq_of_find? hbytes] at hload
  rw [← h.2 directory hmem suffix hsuffix] at hbytes
  rw [loaded_eq_of_find? hbytes]
  exact hload

end Catalog
end TextMate
