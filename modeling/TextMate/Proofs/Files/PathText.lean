import TextMate.Proofs.Files.Follow

/-!
# Texts of paths

The names in a text are its pieces between slashes, without those that are empty or
`.`.  A path of such names that begins at the working directory or at the root is
denoted by its own text.
-/

namespace TextMate
namespace Files
namespace Path

/-!
## Pieces between slashes
-/

theorem splitOn_cons (c : Char) (cs : List Char) :
    (c :: cs).splitOn '/' =
      if c = '/' then [] :: cs.splitOn '/' else (cs.splitOn '/').modifyHead (c :: ·) := by
  rw [List.splitOn, List.splitOnP_cons_eq_if_modifyHead]
  simp [List.splitOn]

theorem slash_not_mem_of_mem_splitOn {cs piece : List Char} (h : piece ∈ cs.splitOn '/') :
    '/' ∉ piece := by
  induction cs generalizing piece with
  | nil =>
      rw [List.splitOn_eq_singleton List.not_mem_nil, List.mem_singleton] at h
      rw [h]
      exact List.not_mem_nil
  | cons c cs ih =>
      rw [splitOn_cons] at h
      split at h
      · rcases List.mem_cons.mp h with rfl | h
        · exact List.not_mem_nil
        · exact ih h
      · rename_i hc
        cases hpieces : cs.splitOn '/' with
        | nil =>
            rw [hpieces] at h
            cases h
        | cons first pieces =>
            rw [hpieces] at h ih
            rcases List.mem_cons.mp h with rfl | h
            · rw [List.mem_cons, not_or]
              exact ⟨Ne.symm hc, ih List.mem_cons_self⟩
            · exact ih (List.mem_cons_of_mem _ h)

theorem splitOn_append (cs : List Char) {tail : List Char} (h : '/' ∉ tail) :
    ∃ init last, (cs ++ tail).splitOn '/' = init ++ [last ++ tail] := by
  induction cs with
  | nil => exact ⟨[], [], List.splitOn_eq_singleton h⟩
  | cons c cs ih =>
      rcases ih with ⟨init, last, hsplit⟩
      rw [List.cons_append, splitOn_cons, hsplit]
      split
      · exact ⟨[] :: init, last, rfl⟩
      · cases init with
        | nil => exact ⟨[], c :: last, rfl⟩
        | cons first init => exact ⟨(c :: first) :: init, last, rfl⟩

/-!
## Names in a text
-/

/-- A text that can be one of the names of a path. -/
structure IsPart (name : String) : Prop where
  slashless : '/' ∉ name.toList
  nonempty : name ≠ ""
  ne_here : name ≠ "."

theorem isPart_of_mem_namesOf {s name : String} (h : name ∈ namesOf s) : IsPart name := by
  rw [namesOf, List.mem_filter] at h
  rcases h with ⟨hmem, hkept⟩
  rcases List.mem_map.mp hmem with ⟨piece, hpiece, rfl⟩
  simp only [Bool.not_eq_true', Bool.or_eq_false_iff, beq_eq_false_iff_ne, ne_eq,
    String.isEmpty_eq_false_iff] at hkept
  constructor
  · rw [String.toList_ofList]
    exact slash_not_mem_of_mem_splitOn hpiece
  · exact hkept.1
  · exact hkept.2

theorem namesOf_intercalate {names : List String} (h : ∀ name ∈ names, IsPart name) :
    namesOf ("/".intercalate names) = names := by
  cases names with
  | nil => decide
  | cons first rest =>
      have hsplit : ("/".intercalate (first :: rest)).toList.splitOn '/' =
          (first :: rest).map String.toList := by
        rw [String.toList_intercalate]
        apply List.splitOn_intercalate
        · intro piece hpiece
          rcases List.mem_map.mp hpiece with ⟨name, hname, rfl⟩
          exact (h name hname).slashless
        · simp
      rw [namesOf, hsplit, List.map_map]
      have hsame : (String.ofList ∘ String.toList) = id := by
        funext s
        exact String.ofList_toList
      rw [hsame, List.map_id, List.filter_eq_self]
      intro name hname
      simp [(h name hname).nonempty, (h name hname).ne_here]

theorem namesOf_append (s : String) {tail : String} {last : Char} (hslash : '/' ∉ tail.toList)
    (hlast : tail.toList.getLast? = some last) (hpoint : last ≠ '.') :
    ∃ init front, namesOf (s ++ tail) = init ++ [front ++ tail] := by
  rcases splitOn_append s.toList hslash with ⟨pieces, front, hsplit⟩
  have hgetLast : (String.ofList front ++ tail).toList.getLast? = some last := by
    rw [String.toList_append, List.getLast?_append, hlast]
    rfl
  rcases not_points_of_getLast? hgetLast hpoint with ⟨hnonempty, hhere, _⟩
  refine ⟨(pieces.map String.ofList).filter fun name => !(name.isEmpty || name == "."),
    String.ofList front, ?_⟩
  have hlastPiece : String.ofList (front ++ tail.toList) = String.ofList front ++ tail := by
    rw [String.ofList_append, String.ofList_toList]
  rw [namesOf, String.toList_append, hsplit, List.map_append, List.map_singleton, hlastPiece,
    List.filter_append, List.filter_singleton]
  simp only [String.isEmpty_eq_false_iff.mpr hnonempty, beq_false_of_ne hhere]
  rfl

theorem name_join_append (p : Path) (s : String) {tail : String} {last : Char}
    (hslash : '/' ∉ tail.toList) (hlast : tail.toList.getLast? = some last) (hpoint : last ≠ '.') :
    ∃ front, (p.join (s ++ tail)).name = front ++ tail := by
  rcases namesOf_append s hslash hlast hpoint with ⟨init, front, hnames⟩
  refine ⟨front, ?_⟩
  unfold join
  split
  · simp [name, hnames]
  · simp [name, ofText, hnames]

/-!
## Texts that denote their paths
-/

structure IsSpelled (p : Path) : Prop where
  base : p.base ≠ .packaged
  names : ∀ name ∈ p.names, IsPart name

theorem isSpelled_ofText (s : String) : (ofText s).IsSpelled := by
  constructor
  · rw [ofText]
    dsimp only
    split <;> decide
  · intro name
    exact isPart_of_mem_namesOf

theorem IsSpelled.join {p : Path} (h : p.IsSpelled) (s : String) : (p.join s).IsSpelled := by
  unfold Path.join
  split
  · constructor
    · exact h.base
    · intro name hname
      rcases List.mem_append.mp hname with hname | hname
      · exact h.names name hname
      · exact isPart_of_mem_namesOf hname
  · exact isSpelled_ofText s

theorem namesOf_slash_append (s : String) : namesOf ("/" ++ s) = namesOf s := by
  have hsplit : ("/" ++ s).toList.splitOn '/' = [] :: s.toList.splitOn '/' := by
    rw [String.toList_append]
    exact splitOn_cons '/' s.toList
  rw [namesOf, namesOf, hsplit]
  rfl

theorem head?_intercalate_ne {names : List String} (h : ∀ name ∈ names, IsPart name) :
    ("/".intercalate names).toList.head? ≠ some '/' := by
  cases names with
  | nil => decide
  | cons first rest =>
      have hfirst := h first List.mem_cons_self
      have hhead : ∃ tail, ("/".intercalate (first :: rest)).toList = first.toList ++ tail := by
        rw [String.toList_intercalate]
        cases rest with
        | nil => exact ⟨[], by simp [List.intercalate]⟩
        | cons second rest => exact ⟨_, by simp [List.intercalate]; rfl⟩
      rcases hhead with ⟨tail, htail⟩
      rw [htail]
      cases hchars : first.toList with
      | nil => exact absurd (String.toList_eq_nil_iff.mp hchars) hfirst.nonempty
      | cons c cs =>
          intro heq
          have hc : c = '/' := Option.some.inj heq
          exact hfirst.slashless (by simp [hchars, hc])

theorem IsSpelled.ofText_text {p : Path} (h : p.IsSpelled) : ofText p.text = p := by
  rcases p with ⟨base, names⟩
  have hnames := namesOf_intercalate h.names
  cases base with
  | packaged => exact absurd rfl h.base
  | root =>
      have hhead : ("/" ++ "/".intercalate names).toList.head? = some '/' := by
        rw [String.toList_append]
        rfl
      show ofText ("/" ++ "/".intercalate names) = _
      rw [ofText, hhead, namesOf_slash_append, hnames]
      rfl
  | here =>
      cases names with
      | nil => decide
      | cons first rest =>
          have hhead := head?_intercalate_ne h.names
          show ofText ("/".intercalate (first :: rest)) = _
          rw [ofText, hnames, if_neg (by simpa only [beq_iff_eq] using hhead)]

end Path
end Files
end TextMate
