import Mathlib.Data.List.Basic
import Mathlib.Data.List.Induction
import TextMate.Files.Store

/-!
# Where paths lead

In a closed store everything stands in a directory.  There a path without `..`
leads to the place that it spells, or nowhere.  A path is settled if it leads
somewhere or has no `..`: making directories cannot turn it elsewhere.  What a
settled path shows of a name is what is at that name under its home.
-/

namespace TextMate
namespace Files

/-!
## Names
-/

/-- A text that is one name of a path and leads down. -/
structure IsName (name : String) : Prop where
  slashless : '/' ∉ name.toList
  nonempty : name ≠ ""
  ne_here : name ≠ "."
  ne_above : name ≠ ".."

theorem not_points_of_getLast? {s : String} {last : Char} (hlast : s.toList.getLast? = some last)
    (hpoint : last ≠ '.') : s ≠ "" ∧ s ≠ "." ∧ s ≠ ".." := by
  have hne : ∀ text : String, text.toList.getLast? = none ∨ text.toList.getLast? = some '.' →
      s ≠ text := by
    rintro text htext rfl
    rw [hlast] at htext
    rcases htext with hnone | hends
    · cases hnone
    · exact hpoint (Option.some.inj hends)
  exact ⟨hne "" (by decide), hne "." (by decide), hne ".." (by decide)⟩

namespace IsName

variable {name : String}

theorem namesOf_eq (h : IsName name) : Path.namesOf name = [name] := by
  have hsplit : name.toList.splitOn '/' = [name.toList] :=
    List.splitOn_eq_singleton h.slashless
  simp [Path.namesOf, hsplit, h.nonempty, h.ne_here]

theorem join_eq (h : IsName name) (p : Path) :
    p.join name = ⟨p.base, p.names ++ [name]⟩ := by
  have hhead : name.toList.head? ≠ some '/' := by
    intro hhead
    exact h.slashless (List.mem_of_mem_head? hhead)
  simp [Path.join, Path.ofText, hhead, h.namesOf_eq]

theorem name_join (h : IsName name) (p : Path) : (p.join name).name = name := by
  simp [h.join_eq, Path.name]

end IsName

/-!
## Suffixes
-/

namespace Path

variable {p : Path}

theorem extension_append_point (stem : List Char) {extension : List Char}
    (hpoint : '.' ∉ extension) :
    ((stem ++ '.' :: extension).reverse.takeWhile (· != '.')).reverse = extension := by
  rw [List.reverse_append, List.reverse_cons, List.append_assoc, List.takeWhile_append_of_pos]
  · simp
  · intro c hc
    rw [List.mem_reverse] at hc
    rw [bne_iff_ne]
    intro heq
    rw [heq] at hc
    exact hpoint hc

theorem splitSuffix_append_point {stem extension : List Char} (hstem : stem ≠ [])
    (hextension : extension ≠ []) (hpoint : '.' ∉ extension) :
    splitSuffix (stem ++ '.' :: extension) = (stem, '.' :: extension) := by
  have hlength : (stem ++ '.' :: extension).length - extension.length - 1 = stem.length := by
    rw [List.length_append, List.length_cons]
    omega
  rw [splitSuffix]
  simp only [extension_append_point stem hpoint, hlength, List.take_left]
  simp [hstem, hextension]

theorem splitSuffix_point {extension : List Char} (hpoint : '.' ∉ extension) :
    splitSuffix ('.' :: extension) = ('.' :: extension, []) := by
  have hextension := extension_append_point [] hpoint
  rw [List.nil_append] at hextension
  rw [splitSuffix]
  simp only [hextension]
  simp

theorem name_eq_stem_append_suffix (p : Path) : p.name = p.stem ++ p.suffix := by
  rw [stem, suffix, ← String.ofList_append, splitSuffix_append, String.ofList_toList]

end Path

/-!
## Following names
-/

namespace Place

def under (q : Place) (name : String) : Place :=
  ⟨q.base, q.names ++ [name]⟩

theorem eq_base_or_under (q : Place) : q.names = [] ∨ ∃ above name, q = under above name := by
  rcases List.eq_nil_or_concat q.names with hnil | ⟨init, last, hnames⟩
  · exact Or.inl hnil
  · apply Or.inr
    refine ⟨⟨q.base, init⟩, last, ?_⟩
    rw [under, ← List.concat_eq_append, ← hnames]

theorem under_inj {q r : Place} {name other : String} (h : q.under name = r.under other) :
    q = r ∧ name = other := by
  simp only [under, Place.mk.injEq, List.append_singleton_inj] at h
  rcases h with ⟨hbase, hnames, hname⟩
  constructor
  · cases q
    cases r
    simp_all
  · exact hname

end Place

namespace Store

variable {s s' : Store} {p : Path} {q r : Place} {name : String}

@[simp] theorem get?_base (s : Store) (base : Base) : s.get? ⟨base, []⟩ = some .directory := rfl

theorem follow_append (s : Store) (q : Place) (xs ys : List String) :
    s.follow q (xs ++ ys) = (s.follow q xs).bind fun r => s.follow r ys := by
  induction xs generalizing q with
  | nil => rfl
  | cons x xs ih =>
      rw [List.cons_append, follow, follow]
      split
      · rfl
      · rfl
      · split
        · split
          · rfl
          · exact ih _
        · exact ih _

theorem follow_of_directories
    (h : ∀ q, s.get? q = some .directory → s'.get? q = some .directory) {names : List String}
    (hfollow : s.follow q names = .ok r) : s'.follow q names = .ok r := by
  induction names generalizing q with
  | nil => exact hfollow
  | cons name names ih =>
      rw [follow] at hfollow ⊢
      split at hfollow
      · cases hfollow
      · cases hfollow
      · rename_i hdirectory
        rw [h q hdirectory]
        dsimp only
        split at hfollow
        · rename_i habove
          rw [if_pos habove]
          split at hfollow
          · cases hfollow
          · rename_i hbase
            rw [if_neg hbase]
            exact ih hfollow
        · rename_i hdown
          rw [if_neg hdown]
          exact ih hfollow

theorem follow_name_iff (h : name ≠ "..") :
    s.follow q [name] = .ok r ↔ s.get? q = some .directory ∧ r = q.under name := by
  rw [follow]
  split
  · rename_i hnone
    simp [hnone]
  · rename_i hfile
    simp [hfile]
  · rename_i hdirectory
    rw [if_neg (by simpa using h), hdirectory, follow, Except.ok.injEq]
    simp only [true_and]
    exact eq_comm

theorem place_eq_ok_iff : s.place p = .ok q ↔ s.follow ⟨p.base, []⟩ p.names = .ok q := by
  unfold place
  cases s.follow ⟨p.base, []⟩ p.names with
  | ok r => simp [Except.mapError]
  | error e => simp [Except.mapError]

/-- A name under a path leads to that name under the place of the path, if there is a
directory. -/
theorem place_join_iff (h : IsName name) :
    s.place (p.join name) = .ok r ↔
      ∃ q, s.place p = .ok q ∧ s.get? q = some .directory ∧ r = q.under name := by
  rw [place_eq_ok_iff, h.join_eq, follow_append]
  cases hfollow : s.follow ⟨p.base, []⟩ p.names with
  | ok q =>
      simp only [place_eq_ok_iff, hfollow, Except.bind, follow_name_iff h.ne_above]
      simp
  | error e => simp [place_eq_ok_iff, hfollow, Except.bind]

theorem find?_eq_some_iff {entry : Entry} :
    s.find? p = some entry ↔ ∃ q, s.place p = .ok q ∧ s.get? q = some entry := by
  unfold find?
  cases s.place p with
  | ok q => simp
  | error e => simp

theorem find?_eq_of_place (h : s.place p = .ok q) : s.find? p = s.get? q := by
  unfold find?
  rw [h]

theorem get?_eq_none_of_place (hplace : s.place p = .ok q) (h : s.contains p = false) :
    s.get? q = none := by
  rw [← find?_eq_of_place hplace]
  simpa [contains] using h

theorem contains_iff : s.contains p = true ↔ ∃ entry, s.find? p = some entry := by
  rw [contains, Option.isSome_iff_exists]

theorem read_of_find? {content : List UInt8} (h : s.find? p = some (.file content)) :
    s.read p = .ok content := by
  rcases find?_eq_some_iff.mp h with ⟨q, hplace, hget⟩
  unfold read
  rw [hplace]
  simp only [bind, Except.bind, hget]
  rfl

theorem read_of_directory (h : s.find? p = some .directory) :
    s.read p = .error ⟨.isDirectory, p⟩ := by
  rcases find?_eq_some_iff.mp h with ⟨q, hplace, hget⟩
  unfold read
  rw [hplace]
  simp only [bind, Except.bind, hget]
  rfl

theorem place_of_contains_join (hname : IsName name) (h : s.contains (p.join name) = true) :
    ∃ q, s.place p = .ok q ∧ s.get? q = some .directory := by
  rcases contains_iff.mp h with ⟨entry, hfind⟩
  rcases find?_eq_some_iff.mp hfind with ⟨r, hplace, _⟩
  rcases (place_join_iff hname).mp hplace with ⟨q, hq, hdirectory, _⟩
  exact ⟨q, hq, hdirectory⟩

/-!
## Children
-/

theorem get?_under_ne_none_iff :
    s.get? (q.under name) ≠ none ↔ ∃ e ∈ s.entries, e.1 = q.under name := by
  have hnames : (q.under name).names.isEmpty = false := by
    simp [Place.under]
  rw [get?, hnames]
  simp

def namesUnder (s : Store) (q : Place) : List String :=
  s.entries.filterMap fun e =>
    if e.1.base == q.base && !e.1.names.isEmpty && e.1.names.dropLast == q.names then
      e.1.names.getLast?
    else none

theorem mem_namesUnder_iff :
    name ∈ s.namesUnder q ↔ ∃ e ∈ s.entries, e.1 = q.under name := by
  unfold namesUnder
  rw [List.mem_filterMap]
  apply exists_congr
  intro e
  apply and_congr_right
  intro he
  constructor
  · intro hlast
    split at hlast
    · rename_i hunder
      simp only [Bool.and_eq_true, beq_iff_eq] at hunder
      have hnames := List.dropLast_append_getLast? _ hlast
      rw [hunder.2] at hnames
      rw [Place.under, hnames, ← hunder.1.1]
    · cases hlast
  · intro heq
    simp [heq, Place.under]

theorem children_eq_ok_iff {paths : List Path} :
    s.children p = .ok paths ↔ ∃ q, s.place p = .ok q ∧ s.get? q = some .directory
      ∧ paths = (s.namesUnder q).map fun name => ⟨p.base, p.names ++ [name]⟩ := by
  unfold children
  cases hplace : s.place p with
  | error e => simp [bind, Except.bind]
  | ok q =>
      simp only [bind, Except.bind, Except.ok.injEq, exists_eq_left']
      cases hget : s.get? q with
      | none => simp [throw, throwThe, MonadExceptOf.throw]
      | some entry =>
          cases entry with
          | file content => simp [throw, throwThe, MonadExceptOf.throw]
          | directory =>
              simp only [pure, Except.pure, Except.ok.injEq, true_and]
              exact eq_comm

theorem children_eq_ok {paths : List Path} (h : s.children p = .ok paths) :
    ∃ q, s.place p = .ok q ∧ s.get? q = some .directory ∧
      ∀ child, child ∈ paths ↔
        ∃ name, child = ⟨p.base, p.names ++ [name]⟩ ∧ s.get? (q.under name) ≠ none := by
  rcases children_eq_ok_iff.mp h with ⟨q, hplace, hget, rfl⟩
  refine ⟨q, hplace, hget, ?_⟩
  intro child
  simp only [List.mem_map, mem_namesUnder_iff, get?_under_ne_none_iff]
  apply exists_congr
  intro name
  rw [and_comm, eq_comm]

/-!
## Closed stores
-/

/-- Whatever stands under a place stands in a directory. -/
def IsClosed (s : Store) : Prop :=
  ∀ q name, s.get? (q.under name) ≠ none → s.get? q = some .directory

theorem IsClosed.get?_under_eq_none (h : s.IsClosed) (hq : s.get? q ≠ some .directory)
    (name : String) : s.get? (q.under name) = none := by
  apply Classical.byContradiction
  intro hne
  exact hq (h q name hne)

theorem isClosed_of_entries
    (h : ∀ e ∈ s.entries, s.get? ⟨e.1.base, e.1.names.dropLast⟩ = some .directory) :
    s.IsClosed := by
  intro q name hne
  have hsome : (s.entries.find? fun e => e.1 == q.under name) ≠ none := by
    intro hnone
    rw [get?, hnone] at hne
    simp [Place.under] at hne
  rcases Option.ne_none_iff_exists'.mp hsome with ⟨e, hfind⟩
  have heq : e.1 = q.under name := by simpa using List.find?_some hfind
  have hdirectory := h e (List.mem_of_find?_eq_some hfind)
  rw [heq] at hdirectory
  simpa [Place.under] using hdirectory

/-- In a closed store names without `..` lead to the place that they spell if anything is
there. -/
theorem IsClosed.follow_plain (h : s.IsClosed) {base : Base} {names : List String}
    (hplain : ".." ∉ names) :
    s.follow ⟨base, []⟩ names = .ok ⟨base, names⟩ ∨
      (∃ e, s.follow ⟨base, []⟩ names = .error e) ∧ s.get? ⟨base, names⟩ = none := by
  induction names using List.reverseRecOn with
  | nil => exact Or.inl rfl
  | append_singleton names name ih =>
      have hplain' : ".." ∉ names := by
        intro hmem
        exact hplain (List.mem_append_left _ hmem)
      have hname : name ≠ ".." := by
        intro heq
        exact hplain (by simp [heq])
      have hnowhere : s.get? ⟨base, names⟩ ≠ some .directory →
          s.get? ⟨base, names ++ [name]⟩ = none := by
        intro hq
        exact h.get?_under_eq_none hq name
      rw [follow_append]
      rcases ih hplain' with hok | ⟨⟨e, herror⟩, hnone⟩
      · rw [hok]
        by_cases hdirectory : s.get? ⟨base, names⟩ = some .directory
        · exact Or.inl ((follow_name_iff hname).mpr ⟨hdirectory, rfl⟩)
        · apply Or.inr
          constructor
          · cases hfollow : s.follow ⟨base, names⟩ [name] with
            | ok r => exact absurd ((follow_name_iff hname).mp hfollow).1 hdirectory
            | error e => exact ⟨e, hfollow⟩
          · exact hnowhere hdirectory
      · rw [herror]
        apply Or.inr
        constructor
        · exact ⟨e, rfl⟩
        · apply hnowhere
          rw [hnone]
          intro heq
          cases heq

theorem IsClosed.find?_plain (h : s.IsClosed) (hplain : ".." ∉ p.names) :
    s.find? p = s.get? ⟨p.base, p.names⟩ := by
  unfold find? place
  rcases h.follow_plain hplain with hok | ⟨⟨e, herror⟩, hnone⟩
  · rw [hok]
    rfl
  · rw [herror, hnone]
    rfl

theorem IsClosed.eq_under_of_follow (h : s.IsClosed) {names : List String}
    (hq : q.names = [] ∨ ∃ above name, q = above.under name ∧ s.get? above = some .directory)
    (hfollow : s.follow q names = .ok r) :
    r.names = [] ∨ ∃ above name, r = above.under name ∧ s.get? above = some .directory := by
  induction names generalizing q with
  | nil =>
      cases hfollow
      exact hq
  | cons name names ih =>
      rw [follow] at hfollow
      split at hfollow
      · cases hfollow
      · cases hfollow
      · rename_i hdirectory
        split at hfollow
        · split at hfollow
          · cases hfollow
          · rename_i hbase
            apply ih _ hfollow
            rcases hq with hnil | ⟨above, last, rfl, habove⟩
            · simp [hnil] at hbase
            · rcases above.eq_base_or_under with hnil | ⟨upper, lower, rfl⟩
              · apply Or.inl
                simp [Place.under, hnil]
              · apply Or.inr
                refine ⟨upper, lower, by simp [Place.under], ?_⟩
                apply h _ lower
                rw [habove]
                exact Option.some_ne_none _
        · apply ih _ hfollow
          exact Or.inr ⟨q, name, rfl, hdirectory⟩

/-!
## Settled paths
-/

/-- Making directories cannot turn the path elsewhere. -/
def IsSettled (s : Store) (p : Path) : Prop :=
  s.contains p = true ∨ ".." ∉ p.names

/-- Where a path leads, or would lead if the directories that it spells were there. -/
def home (s : Store) (p : Path) : Place :=
  match s.place p with
  | .ok q => q
  | .error _ => ⟨p.base, p.names⟩

theorem home_eq_of_place (h : s.place p = .ok q) : s.home p = q := by
  rw [home, h]

theorem IsClosed.home_plain (h : s.IsClosed) (hplain : ".." ∉ p.names) :
    s.home p = ⟨p.base, p.names⟩ := by
  unfold home place
  rcases h.follow_plain hplain with hok | ⟨⟨e, herror⟩, _⟩
  · rw [hok]
    rfl
  · rw [herror]
    rfl

def Shows (s : Store) (p : Path) (q : Place) : Prop :=
  ∀ name, IsName name → s.find? (p.join name) = s.get? (q.under name)

theorem shows_of_place (hplace : s.place p = .ok q) (hdirectory : s.get? q = some .directory) :
    s.Shows p q := by
  intro name hname
  exact find?_eq_of_place ((place_join_iff hname).mpr ⟨q, hplace, hdirectory, rfl⟩)

theorem IsClosed.shows_home (h : s.IsClosed) (hsettled : s.IsSettled p) :
    s.Shows p (s.home p) := by
  rcases hsettled with hcontains | hplain
  · rcases contains_iff.mp hcontains with ⟨entry, hfind⟩
    rcases find?_eq_some_iff.mp hfind with ⟨q, hplace, hget⟩
    rw [home_eq_of_place hplace]
    by_cases hdirectory : s.get? q = some .directory
    · exact shows_of_place hplace hdirectory
    · intro name hname
      rw [h.get?_under_eq_none hdirectory]
      apply Option.eq_none_iff_forall_ne_some.mpr
      intro other hother
      rcases find?_eq_some_iff.mp hother with ⟨r, hr, _⟩
      rcases (place_join_iff hname).mp hr with ⟨q', hq', hdirectory', _⟩
      rw [hplace] at hq'
      cases hq'
      exact hdirectory hdirectory'
  · intro name hname
    rw [h.home_plain hplain, hname.join_eq]
    apply h.find?_plain
    simp [hplain, hname.ne_above.symm]

end Store
end Files
end TextMate
