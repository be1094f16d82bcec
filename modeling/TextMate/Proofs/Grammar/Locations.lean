import Mathlib.Data.List.Nodup
import TextMate.Proofs.Grammar.DocumentPlaces
import TextMate.Proofs.Grammar.Findings
import TextMate.Proofs.Text.WholeNumber

/-!
# Locations

A location spells an address with slashes between its parts, and the name of an
entry is put into it as it is.  So a name that itself spells a way to an inner
pattern makes two addresses look alike, and this is the only way in which they
can.  The main result says when the locations of a grammar differ, and what an
issue then tells about the pattern that it is about.
-/

namespace TextMate

/-!
## Parts between slashes
-/

def segments (s : String) : List (List Char) :=
  s.toList.splitOn '/'

theorem segments_inj {s t : String} : segments s = segments t ↔ s = t := by
  constructor
  · intro h
    have hjoin := congrArg (['/'].intercalate ·) h
    simp only [segments, List.intercalate_splitOn] at hjoin
    exact String.toList_inj.mp hjoin
  · rintro rfl
    rfl

theorem segments_append (s t : String) : segments (s ++ "/" ++ t) = segments s ++ segments t := by
  have hlist : (s ++ "/" ++ t).toList = s.toList ++ '/' :: t.toList := by simp
  rw [segments, hlist, List.splitOn, List.splitOnP_append_cons _ _ (by decide)]
  rfl

theorem segments_of_not_mem {s : String} (h : '/' ∉ s.toList) : segments s = [s.toList] :=
  List.splitOn_eq_singleton h

theorem segments_toString (n : Nat) : segments (toString n) = [(toString n).toList] := by
  apply segments_of_not_mem
  intro hmem
  exact absurd (Text.isDigit_of_mem_toString hmem) (by decide)

namespace Pattern

def pathSegments (path : List Nat) : List (List Char) :=
  path.flatMap fun i => ["patterns".toList, (toString i).toList]

theorem pathSegments_cons (i : Nat) (path : List Nat) :
    pathSegments (i :: path) =
      "patterns".toList :: (toString i).toList :: pathSegments path := rfl

theorem pathSegments_append (path rest : List Nat) :
    pathSegments (path ++ rest) = pathSegments path ++ pathSegments rest :=
  List.flatMap_append

theorem length_pathSegments (path : List Nat) : (pathSegments path).length = 2 * path.length := by
  induction path with
  | nil => rfl
  | cons i path ih =>
      rw [pathSegments_cons, List.length_cons, List.length_cons, ih, List.length_cons]
      omega

theorem pathSegments_append_inj {path rest : List Nat} {xs ys : List (List Char)}
    (hxs : xs.head? ≠ some "patterns".toList) (hys : ys.head? ≠ some "patterns".toList)
    (h : pathSegments path ++ xs = pathSegments rest ++ ys) : path = rest ∧ xs = ys := by
  induction path generalizing rest with
  | nil =>
      cases rest with
      | nil => exact ⟨rfl, h⟩
      | cons j rest =>
          rw [show xs = _ from h] at hxs
          exact absurd rfl hxs
  | cons i path ih =>
      cases rest with
      | nil =>
          rw [show ys = _ from h.symm] at hys
          exact absurd rfl hys
      | cons j rest =>
          simp only [pathSegments_cons, List.cons_append, List.cons.injEq, true_and] at h
          rcases ih h.2 with ⟨rfl, htail⟩
          exact ⟨by rw [Text.toString_toList_inj h.1], htail⟩

theorem pathSegments_inj {path rest : List Nat} (h : pathSegments path = pathSegments rest) :
    path = rest := by
  rw [← List.append_nil (pathSegments path), ← List.append_nil (pathSegments rest)] at h
  exact (pathSegments_append_inj (by simp) (by simp) h).1

/-- What stands in front of the parts of a path, if both are the parts of a path, is a path. -/
theorem exists_path_of_pathSegments_eq {path rest : List Nat} {xs : List (List Char)}
    (h : pathSegments path = xs ++ pathSegments rest) :
    ∃ front, xs = pathSegments front ∧ path = front ++ rest := by
  have hlength := congrArg List.length h
  rw [List.length_append, length_pathSegments, length_pathSegments] at hlength
  obtain ⟨front, back, rfl, hback⟩ : ∃ front back, path = front ++ back
      ∧ back.length = rest.length := by
    refine ⟨path.take (path.length - rest.length), path.drop (path.length - rest.length),
      (List.take_append_drop _ _).symm, ?_⟩
    rw [List.length_drop]
    omega
  rw [pathSegments_append] at h
  have hparts : (pathSegments back).length = (pathSegments rest).length := by
    rw [length_pathSegments, length_pathSegments, hback]
  rcases List.append_inj' h hparts with ⟨hfront, hrest⟩
  exact ⟨front, hfront.symm, by rw [pathSegments_inj hrest]⟩

theorem segments_append_pathText (s : String) (path : List Nat) :
    segments (s ++ pathText path) = segments s ++ pathSegments path := by
  induction path generalizing s with
  | nil => rw [pathText_nil, String.append_empty]; exact (List.append_nil _).symm
  | cons i path ih =>
      have hassoc : s ++ pathText (i :: path) =
          s ++ "/" ++ "patterns" ++ "/" ++ toString i ++ pathText path := by
        rw [← String.toList_inj]
        simp [pathText]
      rw [hassoc, ih, segments_append, segments_append, segments_toString,
        segments_of_not_mem (s := "patterns") (by decide), pathSegments_cons]
      simp

end Pattern

/-!
## Addresses that look alike
-/

namespace Address

/-- The name of the second entry spells the beginning of the path to the first pattern. -/
def Respells (a b : Address) : Prop :=
  ∃ name front path, front ≠ [] ∧ a = .entry name (front ++ path)
    ∧ b = .entry (name ++ Pattern.pathText front) path

theorem segments_location_topLevel (i : Nat) (path : List Nat) :
    segments (topLevel i path).location = Pattern.pathSegments (i :: path) := by
  rw [location, Pattern.segments_append_pathText,
    show "patterns/" ++ toString i = "patterns" ++ "/" ++ toString i from rfl, segments_append,
    segments_toString, segments_of_not_mem (s := "patterns") (by decide)]
  rfl

theorem segments_location_entry (name : String) (path : List Nat) :
    segments (entry name path).location =
      "repository".toList :: (segments name ++ Pattern.pathSegments path) := by
  rw [location, Pattern.segments_append_pathText,
    show "repository/" ++ name = "repository" ++ "/" ++ name from rfl, segments_append,
    segments_of_not_mem (s := "repository") (by decide)]
  rfl

theorem Respells.location_eq {a b : Address} (h : a.Respells b) : a.location = b.location := by
  rcases h with ⟨name, front, path, _, rfl, rfl⟩
  rw [← segments_inj, segments_location_entry, segments_location_entry,
    Pattern.segments_append_pathText, Pattern.pathSegments_append, List.append_assoc]

/-- Two names with paths that have the same parts are the same, or one respells the other. -/
theorem eq_or_respells {name other xs : _} {path rest : List Nat}
    (hname : segments other = segments name ++ xs)
    (hpath : Pattern.pathSegments path = xs ++ Pattern.pathSegments rest) :
    entry name path = entry other rest ∨ (entry name path).Respells (entry other rest) := by
  rcases Pattern.exists_path_of_pathSegments_eq hpath with ⟨front, rfl, rfl⟩
  rw [← Pattern.segments_append_pathText, segments_inj] at hname
  subst hname
  by_cases hfront : front = []
  · subst hfront
    exact Or.inl (by simp)
  · exact Or.inr ⟨name, front, rest, hfront, rfl, rfl⟩

/-- Two addresses have one location exactly if they are equal or one respells the other. -/
theorem location_eq_iff (a b : Address) :
    a.location = b.location ↔ a = b ∨ a.Respells b ∨ b.Respells a := by
  constructor
  · intro h
    rw [← segments_inj] at h
    cases a with
    | topLevel i path =>
        cases b with
        | topLevel j rest =>
            rw [segments_location_topLevel, segments_location_topLevel] at h
            cases Pattern.pathSegments_inj h
            exact Or.inl rfl
        | entry name rest =>
            rw [segments_location_topLevel, segments_location_entry] at h
            exact absurd (List.cons.inj h).1 (by decide)
    | entry name path =>
        cases b with
        | topLevel j rest =>
            rw [segments_location_topLevel, segments_location_entry] at h
            exact absurd (List.cons.inj h).1 (by decide)
        | entry other rest =>
            rw [segments_location_entry, segments_location_entry, List.cons.injEq] at h
            rcases List.append_eq_append_iff.mp h.2 with ⟨xs, hname, hpath⟩ | ⟨xs, hname, hpath⟩
            · rcases eq_or_respells hname hpath with heq | hspells
              · exact Or.inl heq
              · exact Or.inr (Or.inl hspells)
            · rcases eq_or_respells hname hpath with heq | hspells
              · exact Or.inl heq.symm
              · exact Or.inr (Or.inr hspells)
  · rintro (rfl | h | h)
    · rfl
    · exact h.location_eq
    · exact h.location_eq.symm

end Address

namespace Grammar

variable {g : Grammar}

/-!
## Locations of patterns
-/

/-- The name of an entry spells the way to an inner pattern of an entry. -/
def HasLookalike (g : Grammar) : Prop :=
  ∃ name p front q other, (name, p) ∈ g.entries ∧ front ≠ [] ∧ p.at? front = some q
    ∧ other ∈ g.names ∧ other = name ++ Pattern.pathText front

/-- No other pattern has the location of this address. -/
def IsOnlyAt (g : Grammar) (a : Address) : Prop :=
  ∀ b p, g.find? b = some p → b.location = a.location → b = a

theorem find?_entry_eq_some_iff (hdiffer : g.names.Nodup) {name : String} {path : List Nat}
    {q : Pattern} :
    g.find? (.entry name path) = some q ↔ ∃ p, (name, p) ∈ g.entries ∧ p.at? path = some q := by
  rw [find?, Option.bind_eq_some_iff]
  simp only [rule?_eq_some_iff hdiffer]

theorem hasLookalike_of_respells (hdiffer : g.names.Nodup) {a b : Address} {p q : Pattern}
    (ha : g.find? a = some p) (hb : g.find? b = some q) (h : a.Respells b) : g.HasLookalike := by
  rcases h with ⟨name, front, path, hfront, rfl, rfl⟩
  rcases (find?_entry_eq_some_iff hdiffer).mp ha with ⟨entry, hentry, hat⟩
  rcases (find?_entry_eq_some_iff hdiffer).mp hb with ⟨other, hother, _⟩
  rw [Pattern.at?_append, Option.bind_eq_some_iff] at hat
  rcases hat with ⟨inner, hinner, _⟩
  exact ⟨name, entry, front, inner, _, hentry, hfront, hinner,
    List.mem_map.mpr ⟨_, hother, rfl⟩, rfl⟩

theorem isOnlyAt_of_not_hasLookalike (hdiffer : g.names.Nodup) (h : ¬ g.HasLookalike)
    {a : Address} {p : Pattern} (ha : g.find? a = some p) : g.IsOnlyAt a := by
  intro b q hb hlocation
  rcases (Address.location_eq_iff b a).mp hlocation with heq | hspells | hspells
  · exact heq
  · exact absurd (hasLookalike_of_respells hdiffer hb ha hspells) h
  · exact absurd (hasLookalike_of_respells hdiffer ha hb hspells) h

/-- The locations of a grammar differ exactly if no name looks like the way to an inner
pattern. -/
theorem nodup_locations_iff (hdiffer : g.names.Nodup) :
    (g.walk.map (·.1)).Nodup ↔ ¬ g.HasLookalike := by
  have hmap : g.walk.map (·.1) = (g.addressed.map (·.1)).map Address.location := by
    rw [walk_eq_addressed, List.map_map, List.map_map]
    rfl
  rw [hmap, List.nodup_map_iff_inj_on (nodup_addressed hdiffer)]
  have hmem : ∀ a, a ∈ g.addressed.map (·.1) ↔ ∃ p, g.find? a = some p := by
    intro a
    simp only [List.mem_map, Prod.exists, exists_and_right, exists_eq_right,
      mem_addressed_iff hdiffer]
  simp only [hmem]
  constructor
  · rintro hinj ⟨name, p, front, q, other, hentry, hfront, hat, hother, rfl⟩
    rcases List.mem_map.mp hother with ⟨⟨_, r⟩, hr, rfl⟩
    have hspells : (Address.entry name front).Respells (.entry _ []) :=
      ⟨name, front, [], hfront, by rw [List.append_nil], rfl⟩
    have heq := hinj _ ⟨q, (find?_entry_eq_some_iff hdiffer).mpr ⟨p, hentry, hat⟩⟩ _
      ⟨r, (find?_entry_eq_some_iff hdiffer).mpr ⟨r, hr, rfl⟩⟩ hspells.location_eq
    exact hfront (Address.entry.inj heq).2
  · rintro h a ⟨p, ha⟩ b ⟨q, hb⟩ hlocation
    exact (isOnlyAt_of_not_hasLookalike hdiffer h hb) a p ha hlocation

/-!
## Locations of issues
-/

/-- An issue is about the pattern at an address: it was found in that pattern, or it tells that
nothing refers to the entry. -/
inductive Concerns (g : Grammar) : Issue → Address → Prop
  | pattern {i : Issue} {a : Address} {p : Pattern} (hp : g.find? a = some p)
      (hi : i ∈ Report.ofPattern g.names.contains a.location p) : Concerns g i a
  | entry {name : String} (hname : name ∈ g.names) :
      Concerns g (Issue.unusedEntry name (.text name)) (.entry name [])

theorem exists_concerns (hdiffer : g.names.Nodup) {i : Issue} (hi : i ∈ g.report.issues) :
    i ∈ Report.ofScopeName g.header.scopeName ∨ ∃ a, g.Concerns i a := by
  simp only [report, walk_eq_addressed, List.mem_append, List.mem_flatMap, List.mem_map] at hi
  rcases hi with (hi | ⟨node, ⟨⟨a, p⟩, ha, rfl⟩, hi⟩) | ⟨name, hname, rfl⟩
  · exact Or.inl hi
  · exact Or.inr ⟨a, .pattern ((mem_addressed_iff hdiffer).mp ha) hi⟩
  · exact Or.inr ⟨_, .entry (List.mem_of_mem_filter hname)⟩

theorem mem_issues_of_mem_ofPattern (hdiffer : g.names.Nodup) {i : Issue} {a : Address}
    {p : Pattern} (hp : g.find? a = some p)
    (hi : i ∈ Report.ofPattern g.names.contains a.location p) : i ∈ g.report.issues := by
  simp only [report, walk_eq_addressed, List.mem_append, List.mem_flatMap, List.mem_map]
  exact Or.inl (Or.inr ⟨_, ⟨(a, p), (mem_addressed_iff hdiffer).mpr hp, rfl⟩, hi⟩)

/-- The location of an issue is that of its pattern with parts behind it that go on with no
path. -/
def Extends (location : Option String) (a : Address) : Prop :=
  ∃ s xs, location = some s ∧ segments s = segments a.location ++ xs
    ∧ xs.head? ≠ some "patterns".toList

theorem extends_captureKey (a : Address) {word : String} (hword : word ∈ Report.captureWords)
    (key : String) : Extends (Issue.captureKey (a.location ++ ("/" ++ word)) key).location a := by
  have hplain : ∀ word ∈ Report.captureWords, '/' ∉ word.toList ∧ word ≠ "patterns" := by decide
  refine ⟨_, word.toList :: segments key, rfl, ?_, ?_⟩
  · rw [segments_append, ← String.append_assoc, segments_append,
      segments_of_not_mem (hplain word hword).1, List.append_assoc]
    rfl
  · rw [List.head?_cons, ne_eq, Option.some.injEq, String.toList_inj]
    exact (hplain word hword).2

theorem location_of_mem_ofTarget {defines : String → Bool} {location target : String} {i : Issue}
    (h : i ∈ Report.ofTarget defines location target) : i.location = some location := by
  rcases Report.mem_ofTarget_cases h with ⟨_, rfl⟩ | rfl | rfl
  · rfl
  · rfl
  · rfl

theorem Concerns.extends {i : Issue} {a : Address} (h : g.Concerns i a) :
    Extends i.location a := by
  cases h with
  | @entry name hname => exact ⟨_, [], rfl, by simp [Address.location], by simp⟩
  | @pattern _ _ p hp hi =>
      rcases Report.mem_ofPattern_cases hi with ⟨target, _, hi⟩ | ⟨word, hword, key, rfl⟩
      · exact ⟨_, [], location_of_mem_ofTarget hi, by simp, by simp⟩
      · exact extends_captureKey a hword key

theorem Concerns.name_mem (hdiffer : g.names.Nodup) {i : Issue} {name : String}
    {path : List Nat} (h : g.Concerns i (.entry name path)) : name ∈ g.names := by
  cases h with
  | entry hname => exact hname
  | pattern hp _ =>
      rcases (find?_entry_eq_some_iff hdiffer).mp hp with ⟨p, hentry, _⟩
      exact List.mem_map.mpr ⟨_, hentry, rfl⟩

theorem Concerns.address_eq (hdiffer : g.names.Nodup)
    (hplain : ∀ name ∈ g.names, '/' ∉ name.toList) {i j : Issue} {a b : Address}
    (ha : g.Concerns i a) (hb : g.Concerns j b) (hlocation : i.location = j.location) : a = b := by
  rcases ha.extends with ⟨s, xs, hs, hsegments, hxs⟩
  rcases hb.extends with ⟨t, ys, ht, hsegments', hys⟩
  rw [hs, ht, Option.some.injEq] at hlocation
  rw [hlocation, hsegments'] at hsegments
  cases a with
  | topLevel i path =>
      rw [Address.segments_location_topLevel] at hsegments
      cases b with
      | topLevel j rest =>
          rw [Address.segments_location_topLevel] at hsegments
          cases (Pattern.pathSegments_append_inj hys hxs hsegments).1
          rfl
      | entry name rest =>
          rw [Address.segments_location_entry] at hsegments
          exact absurd (List.cons.inj hsegments).1 (by decide)
  | entry name path =>
      rw [Address.segments_location_entry,
        segments_of_not_mem (hplain name (ha.name_mem hdiffer))] at hsegments
      cases b with
      | topLevel j rest =>
          rw [Address.segments_location_topLevel] at hsegments
          exact absurd (List.cons.inj hsegments).1 (by decide)
      | entry other rest =>
          rw [Address.segments_location_entry,
            segments_of_not_mem (hplain other (hb.name_mem hdiffer))] at hsegments
          simp only [List.cons_append, List.nil_append, List.cons.injEq, true_and] at hsegments
          rw [String.toList_inj.mp hsegments.1,
            (Pattern.pathSegments_append_inj hys hxs hsegments.2).1]

theorem Concerns.location_of_reference {i : Issue} {a : Address} {target : String}
    (h : g.Concerns i a) (ha : g.find? a = some (.reference target)) :
    i.location = some a.location := by
  cases h with
  | entry hname => simp [Issue.unusedEntry, Address.location]
  | pattern hp hi =>
      cases hp.symm.trans ha
      exact location_of_mem_ofTarget hi

theorem exists_address_of_mem_dangling (hdiffer : g.names.Nodup) {d : DanglingReferences}
    (hd : g.report.dangling? = some d) {pair : String × Option String} (hpair : pair ∈ d.toList) :
    ∃ a, pair.2 = some a.location ∧ g.find? a = some (.reference pair.1) := by
  rw [Report.dangling?_report] at hd
  rw [DanglingReferences.toList_of_ofList? hd] at hpair
  rcases List.mem_map.mp hpair with ⟨⟨place, target⟩, hv, rfl⟩
  have hvisit := (g.mem_visits_iff _ _).mpr (mem_danglingVisits_iff.mp hv).1
  refine ⟨g.address place, by rw [location_address], ?_⟩
  exact (mem_addressed_iff hdiffer).mp (List.mem_map.mpr ⟨_, hvisit, rfl⟩)

/-- Locations identify patterns exactly if no name of an entry looks like the way to an inner
pattern of an entry.  Then a reference is identified by the location of each issue about it, and
by the location with which it is raised.  All issues but those of the scope name are about some
pattern, and if no name has a slash at all, their locations tell which. -/
theorem locations_identify_patterns_iff {g : Grammar} (hread : g.IsRead) :
    ((g.walk.map (·.1)).Nodup ↔ ¬ g.HasLookalike)
      ∧ (¬ g.HasLookalike →
          (∀ i a target, g.Concerns i a → g.find? a = some (.reference target) →
            i.location = some a.location ∧ g.IsOnlyAt a)
          ∧ ∀ d, g.report.dangling? = some d → ∀ pair ∈ d.toList, ∃ a,
            pair.2 = some a.location ∧ g.find? a = some (.reference pair.1) ∧ g.IsOnlyAt a)
      ∧ (∀ i ∈ g.report.issues,
          i ∈ Report.ofScopeName g.header.scopeName ∨ ∃ a, g.Concerns i a)
      ∧ ((∀ name ∈ g.names, '/' ∉ name.toList) →
          ∀ i j a b, g.Concerns i a → g.Concerns j b → i.location = j.location → a = b) := by
  have hdiffer : g.names.Nodup := hread.wellFormed.names
  refine ⟨nodup_locations_iff hdiffer, ?_, fun i hi => exists_concerns hdiffer hi, ?_⟩
  · intro hno
    constructor
    · intro i a target hconcerns ha
      exact ⟨hconcerns.location_of_reference ha, isOnlyAt_of_not_hasLookalike hdiffer hno ha⟩
    · intro d hd pair hpair
      rcases exists_address_of_mem_dangling hdiffer hd hpair with ⟨a, hlocation, ha⟩
      exact ⟨a, hlocation, ha, isOnlyAt_of_not_hasLookalike hdiffer hno ha⟩
  · intro hplain i j a b ha hb hlocation
    exact ha.address_eq hdiffer hplain hb hlocation

def slashed : Grammar where
  header := ⟨none, none, "source.x", none, none, none, "", "", "u"⟩
  patterns := none
  repository := some [("a", .block ⟨none, "(", none, ")", none, none, none⟩
      (some [.reference "#gone"])),
    ("a/patterns/1", .matching ⟨none, "x", some [("one", ⟨"y"⟩)]⟩)]

theorem slashed_wellFormed : slashed.WellFormed := by decide

/-- The locations of such a grammar differ, and the one of the reference leads to it alone. -/
theorem slashed_locations_differ :
    slashed.IsRead ∧ (slashed.walk.map (·.1)).Nodup
      ∧ slashed.IsOnlyAt (.entry "a" [0]) := by
  have hread : slashed.IsRead := slashed_wellFormed.isRead rfl
  rcases locations_identify_patterns_iff hread with ⟨hdiffer, hreferences, _, _⟩
  have hlocations : slashed.walk.map (·.1) =
      ["repository/a", "repository/a/patterns/0", "repository/a/patterns/1"] := rfl
  have hnodup : (slashed.walk.map (·.1)).Nodup := by
    rw [hlocations]
    decide
  have hat : slashed.find? (.entry "a" [0]) = some (.reference "#gone") := rfl
  have hissue : slashed.Concerns (Issue.dangling "repository/a/patterns/0" "#gone")
      (.entry "a" [0]) := .pattern hat (List.mem_singleton.mpr rfl)
  exact ⟨hread, hnodup, ((hreferences (hdiffer.mp hnodup)).1 _ _ _ hissue hat).2⟩

/-- A grammar with an entry whose name looks like the way to a pattern inside another entry, and
with one whose name looks like the way to captures of another entry. -/
def lookalike : Grammar where
  header := ⟨none, none, "source.x", none, none, none, "", "", "u"⟩
  patterns := none
  repository := some [
    ("a", .block ⟨none, "(", none, ")", none, none, none⟩ (some [.reference "#x"])),
    ("a/patterns/0", .reference "#y"),
    ("b", .matching ⟨none, "x", some [("c/captures/d", ⟨"z"⟩)]⟩),
    ("b/captures/c", .matching ⟨none, "x", some [("d", ⟨"z"⟩)]⟩)]

theorem lookalike_wellFormed : lookalike.WellFormed := by decide

/-- In such a grammar two references that dangle are raised with one location, and two capture
keys of different patterns are warned of with one location. -/
theorem lookalike_locations_agree :
    lookalike.IsRead ∧ ¬ (lookalike.walk.map (·.1)).Nodup
      ∧ lookalike.report.dangling?.map DanglingReferences.toList =
        some [("#x", some "repository/a/patterns/0"), ("#y", some "repository/a/patterns/0")]
      ∧ ∃ i ∈ lookalike.report.issues, ∃ j ∈ lookalike.report.issues,
        lookalike.Concerns i (.entry "b" []) ∧ lookalike.Concerns j (.entry "b/captures/c" [])
          ∧ i.location = j.location := by
  have hdiffer : lookalike.names.Nodup := lookalike_wellFormed.names
  have hlocations : lookalike.walk.map (·.1) =
      ["repository/a", "repository/a/patterns/0", "repository/a/patterns/0", "repository/b",
        "repository/b/captures/c"] := rfl
  have hfirst : lookalike.find? (.entry "b" []) =
      some (.matching ⟨none, "x", some [("c/captures/d", ⟨"z"⟩)]⟩) := rfl
  have hsecond : lookalike.find? (.entry "b/captures/c" []) =
      some (.matching ⟨none, "x", some [("d", ⟨"z"⟩)]⟩) := rfl
  have hi : Issue.captureKey "repository/b/captures" "c/captures/d" ∈
      Report.ofPattern lookalike.names.contains (Address.entry "b" []).location
        (.matching ⟨none, "x", some [("c/captures/d", ⟨"z"⟩)]⟩) := List.mem_singleton.mpr rfl
  have hj : Issue.captureKey "repository/b/captures/c/captures" "d" ∈
      Report.ofPattern lookalike.names.contains (Address.entry "b/captures/c" []).location
        (.matching ⟨none, "x", some [("d", ⟨"z"⟩)]⟩) := List.mem_singleton.mpr rfl
  refine ⟨lookalike_wellFormed.isRead rfl, ?_, rfl,
    _, mem_issues_of_mem_ofPattern hdiffer hfirst hi,
    _, mem_issues_of_mem_ofPattern hdiffer hsecond hj, .pattern hfirst hi, .pattern hsecond hj, ?_⟩
  · rw [hlocations]
    decide
  · rfl

end Grammar
end TextMate
