import TextMate.Grammar.Report

/-!
# Issues by their parts

A report consists of the issue of the scope name, of those of the patterns and of
those of unused entries.  Each part gives issues of its own codes, so that the
issues of one code can be looked for in one part.
-/

namespace TextMate
namespace Report

variable {g : Grammar} {defines : String → Bool} {name location target : String} {p : Pattern}
  {i : Issue}

/-!
## Parts
-/

theorem eq_of_mem_ofScopeName (h : i ∈ ofScopeName name) : i = Issue.scopeName name := by
  unfold ofScopeName at h
  split at h
  · cases h
  · exact List.mem_singleton.mp h

theorem mem_ofTarget_cases (h : i ∈ ofTarget defines location target) :
    (target = "" ∧ i = Issue.emptyInclude location (.text target))
      ∨ i = Issue.dangling location target ∨ i = Issue.doubleMarker location target := by
  unfold ofTarget at h
  split at h
  · rename_i hl
    exact Or.inl ⟨String.toList_eq_nil_iff.mp hl, List.mem_singleton.mp h⟩
  · split at h
    · cases h
    · exact Or.inr (Or.inl (List.mem_singleton.mp h))
  · exact Or.inr (Or.inr (List.mem_singleton.mp h))
  · cases h

def captureWords : List String := ["captures", "beginCaptures", "endCaptures"]

theorem mem_ofPattern_cases (h : i ∈ ofPattern defines location p) :
    (∃ target, p = .reference target ∧ i ∈ ofTarget defines location target)
      ∨ ∃ word ∈ captureWords, ∃ key, i = Issue.captureKey (location ++ ("/" ++ word)) key := by
  have hkeys : ∀ word ∈ captureWords, ∀ names,
      i ∈ ofCaptureKeys (location ++ ("/" ++ word)) names →
        ∃ word ∈ captureWords, ∃ key, i = Issue.captureKey (location ++ ("/" ++ word)) key := by
    intro word hword names hi
    rcases List.mem_map.mp hi with ⟨key, _, rfl⟩
    exact ⟨word, hword, key, rfl⟩
  cases p with
  | reference target => exact Or.inl ⟨target, rfl, h⟩
  | matching rule => exact Or.inr (hkeys "captures" (by decide) _ h)
  | block rule ps =>
      apply Or.inr
      rcases List.mem_append.mp h with h | h
      · rcases List.mem_append.mp h with h | h
        · exact hkeys "captures" (by decide) _ h
        · exact hkeys "beginCaptures" (by decide) _ h
      · exact hkeys "endCaptures" (by decide) _ h

theorem eq_captureKey_of_mem_ofPattern (hp : ∀ target, p ≠ .reference target)
    (h : i ∈ ofPattern defines location p) : ∃ location key, i = Issue.captureKey location key := by
  rcases mem_ofPattern_cases h with ⟨target, rfl, _⟩ | ⟨_, _, key, rfl⟩
  · exact absurd rfl (hp target)
  · exact ⟨_, key, rfl⟩

theorem mem_report_cases (h : i ∈ g.report.issues) :
    i = Issue.scopeName g.header.scopeName
      ∨ (∃ node ∈ g.walk, i ∈ ofPattern g.names.contains node.1 node.2)
      ∨ ∃ name, i = Issue.unusedEntry name (.text name) := by
  simp only [Grammar.report, List.mem_append, List.mem_flatMap, List.mem_map] at h
  rcases h with (h | h) | ⟨name, _, rfl⟩
  · exact Or.inl (eq_of_mem_ofScopeName h)
  · exact Or.inr (Or.inl h)
  · exact Or.inr (Or.inr ⟨name, rfl⟩)

/-!
## Codes
-/

def withCode (r : Report) (code : String) : List Issue :=
  r.issues.filter fun i => i.code == code

def patternCodes : List String :=
  ["EMPTY_INCLUDE", Issue.danglingCode, "DOUBLE_EXTERNAL_MARKER", "INVALID_CAPTURE_KEY"]

def codes : List String :=
  "INVALID_SCOPE_NAME" :: "UNUSED_REPOSITORY_ENTRY" :: patternCodes

theorem code_of_mem_ofPattern (h : i ∈ ofPattern defines location p) : i.code ∈ patternCodes := by
  rcases mem_ofPattern_cases h with ⟨target, _, h⟩ | ⟨_, _, key, rfl⟩
  · rcases mem_ofTarget_cases h with ⟨_, rfl⟩ | rfl | rfl
    · exact List.mem_cons_self
    · exact List.mem_cons_of_mem _ List.mem_cons_self
    · exact List.mem_cons_of_mem _ (List.mem_cons_of_mem _ List.mem_cons_self)
  · simp [Issue.captureKey, patternCodes]

theorem code_of_mem_report (h : i ∈ g.report.issues) : i.code ∈ codes := by
  rcases mem_report_cases h with rfl | ⟨node, _, h⟩ | ⟨name, rfl⟩
  · exact List.mem_cons_self
  · exact List.mem_cons_of_mem _ (List.mem_cons_of_mem _ (code_of_mem_ofPattern h))
  · exact List.mem_cons_of_mem _ List.mem_cons_self

theorem filter_code_eq_nil {issues : List Issue} {code : String} (h : ∀ i ∈ issues, i.code ≠ code) :
    issues.filter (fun i => i.code == code) = [] := by
  rw [List.filter_eq_nil_iff]
  intro i hi hsame
  exact h i hi (beq_iff_eq.mp hsame)

theorem filter_unusedEntry_eq_nil {code : String} (h : code ≠ "UNUSED_REPOSITORY_ENTRY")
    (names : List String) :
    (names.map fun name => Issue.unusedEntry name (.text name)).filter (fun i => i.code == code) =
      [] := by
  apply filter_code_eq_nil
  intro i hi heq
  rcases List.mem_map.mp hi with ⟨name, _, rfl⟩
  exact h heq.symm

theorem withCode_scopeName (g : Grammar) :
    g.report.withCode "INVALID_SCOPE_NAME" = ofScopeName g.header.scopeName := by
  have hscope : (ofScopeName g.header.scopeName).filter
      (fun i => i.code == "INVALID_SCOPE_NAME") = ofScopeName g.header.scopeName := by
    rw [List.filter_eq_self]
    intro i hi
    rw [eq_of_mem_ofScopeName hi]
    rfl
  have hrest : ∀ node : String × Pattern,
      (ofPattern g.names.contains node.1 node.2).filter
        (fun i => i.code == "INVALID_SCOPE_NAME") = [] := by
    intro node
    apply filter_code_eq_nil
    intro i hi heq
    exact absurd (heq ▸ code_of_mem_ofPattern hi) (by decide)
  unfold withCode Grammar.report
  dsimp only
  rw [List.filter_append, List.filter_append, hscope, filter_unusedEntry_eq_nil (by decide),
    List.filter_flatMap]
  simp only [hrest]
  rw [List.flatMap_eq_nil_iff.mpr fun _ _ => rfl, List.append_nil, List.append_nil]

theorem withCode_of_mem_patternCodes (g : Grammar) {code : String} (hcode : code ∈ patternCodes) :
    g.report.withCode code =
      g.walk.flatMap fun node =>
        (ofPattern g.names.contains node.1 node.2).filter fun i => i.code == code := by
  have hscope : (ofScopeName g.header.scopeName).filter (fun i => i.code == code) = [] := by
    apply filter_code_eq_nil
    intro i hi heq
    rw [← heq, eq_of_mem_ofScopeName hi] at hcode
    exact absurd hcode (show "INVALID_SCOPE_NAME" ∉ patternCodes by decide)
  have hunused : code ≠ "UNUSED_REPOSITORY_ENTRY" := by
    rintro rfl
    exact absurd hcode (by decide)
  unfold withCode Grammar.report
  dsimp only
  rw [List.filter_append, List.filter_append, hscope, filter_unusedEntry_eq_nil hunused,
    List.nil_append, List.append_nil, List.filter_flatMap]

end Report
end TextMate
