import Mathlib.Data.List.Nodup
import TextMate.Proofs.Catalog.Coherence

/-!
# Listings

A listing goes through the files of the library and of the project and keeps for
each name the last grammar that it could load.  The files of a directory that it
goes through are those with the suffix of a grammar, in letters of any case.
-/

namespace TextMate
namespace Catalog

open Files

/-!
## The last of each name
-/

section LastOfName

variable {met summaries : List Summary} {s : Summary} {name : String}

theorem find?_map_replace (summaries : List Summary) (s : Summary) (name : String) :
    (summaries.map fun t => if t.name == s.name then s else t).find? (fun t => t.name == name) =
      if s.name = name then (summaries.find? fun t => t.name == name).map fun _ => s
      else summaries.find? fun t => t.name == name := by
  induction summaries with
  | nil => simp
  | cons t summaries ih =>
      rw [List.map_cons, List.find?_cons, List.find?_cons, ih]
      by_cases hname : s.name = name
      · by_cases ht : t.name = name
        · simp [ht, hname]
        · simp [hname, beq_false_of_ne ht]
      · by_cases ht : t.name = s.name
        · simp [ht, hname, beq_false_of_ne hname]
        · simp [ht, hname]

theorem find?_addSummary (summaries : List Summary) (s : Summary) (name : String) :
    (addSummary summaries s).find? (fun t => t.name == name) =
      if s.name = name then some s else summaries.find? fun t => t.name == name := by
  unfold addSummary
  split
  · rename_i hany
    rw [find?_map_replace]
    split
    · rename_i hname
      rw [List.any_eq_true] at hany
      rcases hany with ⟨t, ht, heq⟩
      rw [hname] at heq
      cases hfind : summaries.find? fun t => t.name == name with
      | none => exact absurd heq (List.find?_eq_none.mp hfind t ht)
      | some u => rfl
    · rfl
  · rename_i hany
    rw [List.find?_append]
    by_cases hname : s.name = name
    · have hnone : (summaries.find? fun t => t.name == name) = none := by
        rw [List.find?_eq_none]
        intro t ht heq
        rw [← hname] at heq
        exact hany (List.any_eq_true.mpr ⟨t, ht, heq⟩)
      simp [hnone, hname]
    · simp [hname]

theorem nodup_addSummary (h : (summaries.map (·.name)).Nodup) (s : Summary) :
    ((addSummary summaries s).map (·.name)).Nodup := by
  unfold addSummary
  split
  · have hnames : (summaries.map fun t => if t.name == s.name then s else t).map (·.name) =
        summaries.map (·.name) := by
      rw [List.map_map]
      apply List.map_congr_left
      intro t _
      rw [Function.comp_apply]
      split
      · rename_i heq
        exact (by simpa using heq : t.name = s.name).symm
      · rfl
    rw [hnames]
    exact h
  · rename_i hany
    rw [List.map_append, List.map_singleton]
    apply h.append (List.nodup_singleton _)
    intro name hname hmem
    rw [List.mem_singleton] at hmem
    rcases List.mem_map.mp hname with ⟨t, ht, rfl⟩
    exact hany (List.any_eq_true.mpr ⟨t, ht, by simp [hmem]⟩)

theorem nodup_foldl_addSummary (met : List Summary) :
    ((met.foldl addSummary []).map (·.name)).Nodup := by
  induction met using List.reverseRecOn with
  | nil => simp
  | append_singleton met s ih =>
      rw [List.foldl_append, List.foldl_cons, List.foldl_nil]
      exact nodup_addSummary ih s

theorem find?_foldl_addSummary (met : List Summary) (name : String) :
    (met.foldl addSummary []).find? (fun t => t.name == name) =
      met.reverse.find? fun t => t.name == name := by
  induction met using List.reverseRecOn with
  | nil => rfl
  | append_singleton met s ih =>
      rw [List.foldl_append, List.foldl_cons, List.foldl_nil, find?_addSummary, ih,
        List.reverse_append, List.reverse_singleton, List.singleton_append, List.find?_cons]
      by_cases hname : s.name = name
      · simp [hname]
      · rw [if_neg hname, beq_false_of_ne hname]

theorem mem_foldl_addSummary_iff :
    s ∈ met.foldl addSummary [] ↔ met.reverse.find? (fun t => t.name == s.name) = some s := by
  rw [← find?_foldl_addSummary]
  constructor
  · intro hmem
    cases hfind : (met.foldl addSummary []).find? fun t => t.name == s.name with
    | none => exact absurd (by simp) (List.find?_eq_none.mp hfind s hmem)
    | some t =>
        have hname : t.name = s.name := by simpa using List.find?_some hfind
        rw [List.inj_on_of_nodup_map (nodup_foldl_addSummary met)
          (List.mem_of_find?_eq_some hfind) hmem hname]
  · exact List.mem_of_find?_eq_some

theorem mem_foldl_addSummary_append_iff (ofLibrary ofProject : List Summary) :
    s ∈ (ofLibrary ++ ofProject).foldl addSummary [] ∧ s.name = name ↔
      (ofProject.reverse.find? (fun t => t.name == name)).or
        (ofLibrary.reverse.find? fun t => t.name == name) = some s := by
  rw [← List.find?_append, ← List.reverse_append]
  constructor
  · rintro ⟨hmem, rfl⟩
    exact mem_foldl_addSummary_iff.mp hmem
  · intro hfind
    have hsname : s.name = name := by simpa using List.find?_some hfind
    constructor
    · rw [mem_foldl_addSummary_iff, hsname]
      exact hfind
    · exact hsname

end LastOfName

/-!
## Files of a directory
-/

section Directory

variable {files : Store} {directory p : Path} {paths : List Path} {name suffix : String}

theorem stem_join (hname : IsStem name) (hne : name ≠ "") (hsuffix : suffix ∈ suffixes) :
    (directory.join (name ++ suffix)).stem = name
      ∧ (directory.join (name ++ suffix)).suffix = suffix := by
  have hjoin := (hname.isName hsuffix).name_join directory
  rcases extension_of_mem_suffixes hsuffix with ⟨extension, rfl, hextension, hno⟩
  have hstem : name.toList ≠ [] := by
    rw [ne_eq, String.toList_eq_nil_iff]
    exact hne
  have hsplit := Path.splitSuffix_append_point hstem hextension hno
  rw [Path.stem, Path.suffix, hjoin, String.toList_append, String.toList_ofList, hsplit]
  exact ⟨String.ofList_toList, rfl⟩

/-- The grammar files of a directory are the children with the suffix of a grammar, in letters of
any case. -/
theorem mem_filesIn_iff (h : filesIn files directory = .ok paths) :
    p ∈ paths ↔ ∃ q name, files.place directory = .ok q ∧ files.get? q = some .directory
      ∧ files.get? (q.under name) ≠ none ∧ p = ⟨directory.base, directory.names ++ [name]⟩
      ∧ Text.lowercase p.suffix ∈ suffixes := by
  unfold filesIn at h
  split at h
  · cases hchildren : files.children directory with
    | error e =>
        rw [hchildren] at h
        cases h
    | ok children =>
        rw [hchildren] at h
        cases h
        rcases Store.children_eq_ok hchildren with ⟨q, hplace, hget, hmem⟩
        rw [List.mem_mergeSort, List.mem_filter, hmem, List.contains_iff_mem]
        constructor
        · rintro ⟨⟨name, hp, hentry⟩, hsuffix⟩
          exact ⟨q, name, hplace, hget, hentry, hp, hsuffix⟩
        · rintro ⟨q', name, hplace', _, hentry, hp, hsuffix⟩
          rw [hplace] at hplace'
          cases hplace'
          exact ⟨⟨name, hp, hentry⟩, hsuffix⟩
  · rename_i hmissing
    cases h
    constructor
    · intro hmem
      cases hmem
    · rintro ⟨q, _, hplace, hget, _⟩
      apply absurd _ hmissing
      exact Store.contains_iff.mpr ⟨_, Store.find?_eq_some_iff.mpr ⟨q, hplace, hget⟩⟩

theorem filesIn_of_single (hcontains : files.contains directory = true)
    (hchildren : files.children directory = .ok [p])
    (hsuffix : Text.lowercase p.suffix ∈ suffixes) : filesIn files directory = .ok [p] := by
  rw [filesIn, if_pos hcontains, hchildren]
  simp [Except.map, Except.mapError, hsuffix]

theorem summarized_eq_some_iff {s : Summary} :
    summarized files p = .ok (some s) ↔
      ∃ g, loaded files p = .ok g ∧ s = g.summary p.stem (some p.text) := by
  unfold summarized
  cases hload : loaded files p with
  | ok g =>
      have heq : ∀ handle : Failure → Except Failure (Option Summary),
          ((Except.ok g : Except Failure Grammar).map fun g =>
            some (g.summary p.stem (some p.text))).tryCatch handle =
              .ok (some (g.summary p.stem (some p.text))) := fun _ => rfl
      rw [heq]
      simp [eq_comm]
  | error failure =>
      have heq : ∀ handle : Failure → Except Failure (Option Summary),
          ((Except.error failure : Except Failure Grammar).map fun g =>
            some (g.summary p.stem (some p.text))).tryCatch handle = handle failure := fun _ => rfl
      rw [heq]
      split
      · simp
      · simp

theorem summariesOf_of_single {g : Grammar} {stem text : String}
    (hfiles : filesIn files directory = .ok [p]) (hstem : p.stem = stem)
    (htext : p.text = text) (hload : loaded files p = .ok g) :
    summariesOf files directory = .ok [g.summary stem (some text)] := by
  rw [summariesOf, hfiles]
  simp only [Except.bind]
  rw [List.mapM_cons, summarized, hload, ← hstem, ← htext]
  rfl

end Directory

/-!
## A library with one grammar
-/

def holding : Catalog where
  files := ⟨[(⟨.here, ["library"]⟩, .directory),
    (⟨.here, ["library", "a.json"]⟩, .file (Text.encodeUtf8 plainestText))]⟩
  library := ⟨.here, ["library"]⟩
  project := none
  kept := []

theorem holding_loaded : loaded holding.files ⟨.here, ["library", "a.json"]⟩ = .ok plainest := by
  have hfind : holding.files.find? ⟨.here, ["library", "a.json"]⟩ =
      some (.file (Text.encodeUtf8 plainestText)) := rfl
  rw [loaded_eq_of_find? hfind]
  exact decoded_plainestText

theorem holding_summariesOf :
    summariesOf holding.files ⟨.here, ["library"]⟩ =
      .ok [plainest.summary "a" (some "library/a.json")] :=
  summariesOf_of_single (filesIn_of_single rfl rfl (by decide)) (by decide +kernel)
    (by decide +kernel) holding_loaded

theorem holding_list :
    (list.on holding).1 = .ok [plainest.summary "a" (some "library/a.json")] := by
  have hdirectories : holding.library :: holding.project.toList = [⟨.here, ["library"]⟩] := rfl
  rw [show list.on holding = (listed holding, holding) from list_answers, listed, met,
    hdirectories, List.mapM_cons, holding_summariesOf]
  simp [List.mapM_nil, bind, Except.bind, pure, Except.pure, Except.map, addSummary]

end Catalog
end TextMate
