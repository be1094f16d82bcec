import TextMate.Proofs.Draft.Stopping
import TextMate.Proofs.Grammar.Unmark

/-!
# Checked grammars as drafts

Seen as a draft, a checked grammar is gone through, transformed and searched with
the same result: the walk meets the same patterns at the same locations and has no
fault, a transformation meets them in the same order and makes the draft of the
transformed grammar, and the reports are equal.
-/

namespace TextMate
namespace Draft

/-!
## The walk
-/

/-- A walk that meets checked patterns only and does not stop. -/
def passing (nodes : List (String × Pattern)) : Trail :=
  ⟨nodes.map fun n => (n.1, ofPattern n.2), none⟩

theorem passing_andThen (nodes others : List (String × Pattern)) :
    (passing nodes).andThen (passing others) = passing (nodes ++ others) := by
  rw [Trail.andThen_of_passed _ rfl, passing, passing, passing, List.map_append]

theorem walkItems_ofPatterns {ps : List Pattern}
    (hps : ∀ p ∈ ps, ∀ location, walk location (ofPattern p) = passing (p.walk location))
    (base : String) (start : Nat) :
    walkItems base start (ofPatterns ps) = passing (Pattern.walkFrom base start ps) := by
  induction ps generalizing start with
  | nil => rfl
  | cons p ps ih =>
      rw [ofPatterns, walkItems, hps p List.mem_cons_self,
        ih fun q hq => hps q (List.mem_cons_of_mem p hq), passing_andThen, Pattern.walkFrom]

theorem walk_ofPattern (p : Pattern) (location : String) :
    walk location (ofPattern p) = passing (p.walk location) := by
  induction p using Pattern.inductionOn generalizing location with
  | matching rule => rfl
  | reference target => rfl
  | absent rule => rfl
  | block rule ps ih =>
      have hwalk : walk location (ofPattern (.block rule (some ps))) =
          (walkItems (location ++ "/patterns/") 0 (ofPatterns ps)).cons location
            (ofPattern (.block rule (some ps))) := rfl
      rw [hwalk, walkItems_ofPatterns ih, Pattern.walk]
      rfl

theorem walkEntries_ofPattern (es : List (String × Pattern)) :
    walkEntries (es.map fun e => (.text e.1, ofPattern e.2)) =
      passing (es.flatMap fun e => e.2.walk ("repository/" ++ e.1)) := by
  induction es with
  | nil => rfl
  | cons e es ih =>
      rw [List.map_cons, walkEntries, ih, walk_ofPattern, passing_andThen, List.flatMap_cons]
      rfl

def repositoryOf (g : Grammar) : Value :=
  match g.repository with
  | some es => .dict (es.map fun e => (.text e.1, ofPattern e.2))
  | none => .null

theorem ofNamed_ofPattern (es : List (String × Pattern)) :
    ofNamed (es.map fun e => (e.1, ofPattern e.2)) =
      .dict (es.map fun e => (.text e.1, ofPattern e.2)) :=
  congrArg Value.dict (List.map_map ..)

theorem ofGrammar_eq (g : Grammar) :
    ofGrammar g =
      (grammar g.header (ofPatterns? g.patterns) none).put .repository (repositoryOf g) := by
  rw [ofGrammar, repositoryOf]
  cases g.repository with
  | none => rfl
  | some es =>
      dsimp only [Option.map_some]
      rw [← ofNamed_ofPattern]
      rfl

theorem read_repository (g : Grammar) : read (ofGrammar g) .repository = .ok (repositoryOf g) := by
  rw [ofGrammar_eq]
  rfl

theorem entries_repositoryOf (g : Grammar) :
    entries (repositoryOf g) = .ok (g.entries.map fun e => (.text e.1, ofPattern e.2)) := by
  rw [repositoryOf, Grammar.entries]
  cases g.repository with
  | none => rfl
  | some es => cases es <;> rfl

/-- The walk meets what it meets in the grammar. -/
theorem walkGrammar_ofGrammar (g : Grammar) : walkGrammar (ofGrammar g) = passing g.walk := by
  have hpatterns : read (ofGrammar g) .patterns = .ok (ofList (ofPatterns? g.patterns)) := rfl
  have htop : walkSlot "patterns/" (ofList (ofPatterns? g.patterns)) =
      passing (Pattern.walkFrom "patterns/" 0 g.topLevel) := by
    rw [Grammar.topLevel]
    cases g.patterns with
    | none => rfl
    | some ps => exact walkItems_ofPatterns (fun p _ => walk_ofPattern p) _ 0
  rw [walkGrammar, hpatterns, read_repository, ok_bind, ok_bind, entries_repositoryOf, ok_bind,
    htop, walkEntries_ofPattern]
  exact passing_andThen _ _

/-!
## Transformations
-/

def noting (f : Pattern → Pattern) (p : Pattern) : StateM (List Pattern) Pattern := do
  modify (p :: ·)
  return f p

/-- Work on drafts that does what other work does with checked patterns. -/
def Mirrors {α β : Type} (embed : α → β) (w : Work β) (v : StateM (List Pattern) α) : Prop :=
  ∀ met : List Pattern,
    w (met.map ofPattern) = .ok (embed (v.run met).1, (v.run met).2.map ofPattern)

section Mirrors

variable {α β α' β' : Type} {embed : α → β} {embed' : α' → β'}

theorem Mirrors.bind {w : Work β} {v : StateM (List Pattern) α} {k : β → Work β'}
    {l : α → StateM (List Pattern) α'} (h : Mirrors embed w v)
    (hk : ∀ a, Mirrors embed' (k (embed a)) (l a)) : Mirrors embed' (w >>= k) (v >>= l) := by
  intro met
  show (w (met.map ofPattern) >>= fun r => k r.1 r.2) = _
  rw [h met]
  exact hk _ _

theorem Mirrors.map {w : Work β} {v : StateM (List Pattern) α} {build : β → β'} {build' : α → α'}
    (h : Mirrors embed w v) (hbuild : ∀ a, build (embed a) = embed' (build' a)) :
    Mirrors embed' (build <$> w) (build' <$> v) := by
  intro met
  show (build <$> w) (met.map ofPattern) =
    .ok (embed' (build' (v.run met).1), (v.run met).2.map ofPattern)
  rw [← hbuild]
  show (w (met.map ofPattern) >>= fun r => pure (build r.1, r.2)) = _
  rw [h met]
  rfl

variable {F : Value → Except Fault Value} {f : Pattern → Pattern}
  (hf : ∀ p, F (ofPattern p) = .ok (ofPattern (f p)))
include hf

theorem mirrors_apply (p : Pattern) : Mirrors ofPattern (apply F (ofPattern p)) (noting f p) := by
  intro met
  rw [apply, hf p]
  rfl

omit hf in
theorem mirrors_transformItems {ps : List Pattern}
    (hps : ∀ p ∈ ps, ∀ location,
      Mirrors ofPattern (transform F location (ofPattern p)) (p.mapM (noting f)))
    (base : String) (start : Nat) :
    Mirrors ofPatterns (transformItems F base start (ofPatterns ps))
      (Pattern.mapListM (noting f) ps) := by
  induction ps generalizing start with
  | nil => exact fun _ => rfl
  | cons p ps ih =>
      rw [ofPatterns, transformItems, Pattern.mapListM]
      refine (hps p List.mem_cons_self _).bind fun q => ?_
      refine (ih (fun q hq => hps q (List.mem_cons_of_mem p hq)) _).bind fun qs => ?_
      exact fun _ => rfl

theorem mirrors_transform (p : Pattern) (location : String) :
    Mirrors ofPattern (transform F location (ofPattern p)) (p.mapM (noting f)) := by
  induction p using Pattern.inductionOn generalizing location with
  | matching rule => exact mirrors_apply hf (.matching rule)
  | reference target => exact mirrors_apply hf (.reference target)
  | absent rule => exact mirrors_apply hf (.block rule none)
  | block rule ps ih =>
      have htransform : transform F location (ofPattern (.block rule (some ps))) =
          transformItems F (location ++ "/patterns/") 0 (ofPatterns ps) >>= fun ws =>
            apply F (block ⟨rule.name, rule.opening, ofCheckedCaptures rule.openingCaptures,
              rule.closing, ofCheckedCaptures rule.closingCaptures,
              ofCheckedCaptures rule.captures, rule.contentName⟩ (some ws)) := by
        rw [ofPattern, block, ofPatterns?, ofList, transform]
        simp [transformFields, transformSlot, Kind.isPattern, block, ofList]
      rw [htransform, Pattern.mapM]
      exact (mirrors_transformItems ih _ 0).bind fun qs => mirrors_apply hf (.block rule (some qs))

theorem mirrors_transformEntries (es : List (String × Pattern)) :
    Mirrors (fun es : List (String × Pattern) =>
        es.map fun e => (Value.text e.1, ofPattern e.2))
      (transformEntries F (es.map fun e => (.text e.1, ofPattern e.2)))
      (Grammar.mapEntriesM (noting f) es) := by
  induction es with
  | nil => exact fun _ => rfl
  | cons e es ih =>
      rw [List.map_cons, transformEntries, Grammar.mapEntriesM]
      refine (mirrors_transform hf e.2 _).bind fun p => ?_
      exact ih.bind fun es => fun _ => rfl

theorem mirrors_transformSlot (ps : Option (List Pattern)) (base : String) :
    Mirrors (fun ps => ofList (ofPatterns? ps)) (transformSlot F base (ofList (ofPatterns? ps)))
      (match ps with
        | none => pure none
        | some ps => some <$> Pattern.mapListM (noting f) ps) := by
  cases ps with
  | none => exact fun _ => rfl
  | some ps =>
      have hitems := mirrors_transformItems (fun p (_ : p ∈ ps) => mirrors_transform hf p) base 0
      exact hitems.map fun _ => rfl

theorem mirrors_transformRepository (g : Grammar) :
    Mirrors (fun es => repositoryOf { g with repository := es })
      (match repositoryOf g with
        | .null => pure .null
        | .dict es | .view es => Value.dict <$> transformEntries F es
        | v => stop (.noAttribute v.typeName "items"))
      (match g.repository with
        | none => pure none
        | some es => some <$> Grammar.mapEntriesM (noting f) es) := by
  rw [repositoryOf]
  cases g.repository with
  | none => exact fun _ => rfl
  | some es =>
      exact (mirrors_transformEntries hf es).map fun _ => rfl

theorem mirrors_transformGrammar (g : Grammar) :
    Mirrors ofGrammar (transformGrammar F (ofGrammar g)) (g.mapM (noting f)) := by
  have hread : ∀ v, (liftM (Except.ok v : Except Fault Value) : Work Value) = pure v :=
    fun _ => rfl
  have hpatterns : read (ofGrammar g) .patterns = .ok (ofList (ofPatterns? g.patterns)) := rfl
  have hdraft : transformGrammar F (ofGrammar g) =
      transformSlot F "patterns/" (ofList (ofPatterns? g.patterns)) >>= fun ps =>
        (match repositoryOf g with
          | .null => pure .null
          | .dict es | .view es => Value.dict <$> transformEntries F es
          | v => stop (.noAttribute v.typeName "items")) >>= fun es =>
            pure (((ofGrammar g).put .patterns ps).put .repository es) := by
    rw [transformGrammar, hpatterns, read_repository, hread, hread, pure_bind]
    refine congrArg (_ >>= ·) (funext fun ps => ?_)
    rw [pure_bind]
    cases repositoryOf g <;> rfl
  have hgrammar : g.mapM (noting f) =
      (match g.patterns with
        | none => pure none
        | some ps => some <$> Pattern.mapListM (noting f) ps) >>= fun ps =>
          (match g.repository with
            | none => pure none
            | some es => some <$> Grammar.mapEntriesM (noting f) es) >>= fun es =>
              pure { g with patterns := ps, repository := es } := by
    rcases g with ⟨header, patterns, repository⟩
    cases patterns <;> cases repository <;> rfl
  rw [hdraft, hgrammar]
  refine (mirrors_transformSlot hf g.patterns _).bind fun ps => ?_
  refine (mirrors_transformRepository hf g).bind fun es => ?_
  have hput : ((ofGrammar g).put .patterns (ofList (ofPatterns? ps))).put .repository
      (repositoryOf { g with repository := es }) =
        ofGrammar { g with patterns := ps, repository := es } := by
    rw [ofGrammar_eq, ofGrammar_eq]
    rfl
  rw [hput]
  exact fun _ => rfl

/-- The draft of a transformed grammar is the transformed draft. -/
theorem mapGrammar_ofGrammar (g : Grammar) :
    mapGrammar F (ofGrammar g) = .ok (ofGrammar (g.map f)) := by
  have hmap : ((g.mapM (noting f)).run []).1 = g.map f := by
    have hlook := Grammar.mapM_look (m := StateM (List Pattern)) f (fun p => modify (p :: ·)) g
    rw [show g.mapM (noting f) = _ from hlook]
    rfl
  have hrun := mirrors_transformGrammar hf g []
  rw [hmap] at hrun
  rw [mapGrammar, StateT.run, show ([] : List Value) = [].map ofPattern from rfl, hrun]
  rfl

end Mirrors

theorem unmarkIncludes_ofGrammar (g : Grammar) :
    unmarkIncludes (ofGrammar g) = .ok (ofGrammar g.unmarkIncludes) := by
  apply mapGrammar_ofGrammar
  intro p
  cases p <;> rfl

/-- A transformation meets the patterns of the draft in the order of those of the grammar. -/
theorem transformed_ofGrammar (g : Grammar) :
    transformed (ofGrammar g) = .ok (g.transformed.map ofPattern) := by
  have hrun := mirrors_transformGrammar (F := .ok) (f := id) (fun _ => rfl) g []
  rw [transformed, StateT.run, show ([] : List Value) = [].map ofPattern from rfl, hrun]
  exact congrArg Except.ok (List.map_reverse ..).symm

/-!
## Reports
-/

theorem captureKeyIssues_texts (location : String) (keys : List String) :
    (keys.map Value.text).mapM (captureKeyIssues location) =
      .ok (keys.map fun key => Report.ofCaptureKeys location [key]) := by
  rw [mapM_eq_ok_iff, List.map_map, List.map_map]
  rfl

theorem flatten_ofCaptureKeys (location : String) (keys : List String) :
    (keys.map fun key => Report.ofCaptureKeys location [key]).flatten =
      Report.ofCaptureKeys location keys := by
  induction keys with
  | nil => rfl
  | cons key keys ih =>
      rw [List.map_cons, List.flatten_cons, ih]
      simp only [Report.ofCaptureKeys, ← List.map_append, ← List.filter_append,
        List.singleton_append]

theorem membersOrNone_ofCaptures (captures : Captures Capture) :
    membersOrNone (ofCaptures (ofCheckedCaptures captures)) =
      .ok ((Report.keys captures).map .text) := by
  cases captures with
  | none => rfl
  | some cs =>
      have hkeys : (cs.map fun c => (c.1, capture c.2.name)).map (·.1) = cs.map (·.1) :=
        List.map_map ..
      refine (membersOrNone_ofNamed _).trans ?_
      rw [hkeys]
      rfl

theorem captureIssues_of_read {v : Value} {f : Field} {captures : Captures Capture}
    (h : read v f = .ok (ofCaptures (ofCheckedCaptures captures))) (location : String) :
    captureIssues location v f =
      .ok (Report.ofCaptureKeys (location ++ "/" ++ f.documentKey) (Report.keys captures)) := by
  rw [captureIssues, h, ok_bind, membersOrNone_ofCaptures, ok_bind, captureKeyIssues_texts, ok_bind,
    flatten_ofCaptureKeys]
  rfl

/-- What is found at a pattern, where the names of the repository are known as values. -/
theorem patternIssues_ofPattern {names : List Value} {defines : String → Bool}
    (hnames : ∀ name, names.any (Value.text name).same = defines name) (location : String)
    (p : Pattern) :
    patternIssues names location (ofPattern p) = .ok (Report.ofPattern defines location p) := by
  have hlocation : ∀ key, location ++ "/" ++ key = location ++ ("/" ++ key) :=
    fun key => String.append_assoc ..
  cases p with
  | reference target =>
      have hread : read (reference target) .target = .ok (.text target) := rfl
      show targetIssues names location (reference target) = _
      rw [targetIssues, hread, ok_bind, targetText_of_read hread, ok_bind, funext hnames,
        Report.ofPattern]
      cases hempty : target.isEmpty with
      | false =>
          rw [if_pos (by simp [Value.isTruthy, hempty])]
          rfl
      | true =>
          obtain rfl : target = "" := String.isEmpty_iff.mp hempty
          rfl
  | matching rule =>
      show captureIssues location (ofPattern (.matching rule)) .captures = _
      rw [captureIssues_of_read rfl, hlocation]
      rfl
  | block rule ps =>
      rw [patternIssues.eq_def]
      have hboth : captureIssues location (ofPattern (.block rule ps)) .captures = _ :=
        captureIssues_of_read rfl location
      have hopening : captureIssues location (ofPattern (.block rule ps)) .openingCaptures = _ :=
        captureIssues_of_read rfl location
      have hclosing : captureIssues location (ofPattern (.block rule ps)) .closingCaptures = _ :=
        captureIssues_of_read rfl location
      have hkind : (ofPattern (.block rule ps)).kind? = some .block := rfl
      simp only [hkind, hboth, hopening, hclosing, ok_bind, hlocation]
      rfl

theorem membersOrNone_repositoryOf (g : Grammar) :
    membersOrNone (repositoryOf g) = .ok (g.names.map .text) := by
  rw [repositoryOf, Grammar.names, Grammar.entries]
  cases g.repository with
  | none => rfl
  | some es =>
      have hnames : (es.map fun e => (e.1, ofPattern e.2)).map (·.1) = es.map (·.1) :=
        List.map_map ..
      dsimp only
      rw [← ofNamed_ofPattern, membersOrNone_ofNamed, hnames]
      rfl

theorem any_foldl_texts (name : String) (keys : List String) (met : List Value) :
    ((keys.map Value.text).foldl
      (fun met v => if met.any v.same then met else met ++ [v]) met).any (Value.text name).same =
        (met.any (Value.text name).same || keys.contains name) := by
  induction keys generalizing met with
  | nil => rw [List.map_nil, List.foldl_nil, List.contains_nil, Bool.or_false]
  | cons key keys ih =>
      rw [List.map_cons, List.foldl_cons, List.contains_cons, ih]
      split
      next hknown =>
        -- a name that is met again is known already
        cases hname : name == key with
        | false => rw [Bool.false_or]
        | true => rw [beq_iff_eq.mp hname, hknown, Bool.true_or, Bool.true_or]
      next =>
        rw [List.any_append, List.any_cons, List.any_nil, Bool.or_false, Value.same_text,
          Bool.or_assoc]

theorem any_distinct_texts (keys : List String) (name : String) :
    (Value.distinct (keys.map .text)).any (Value.text name).same = keys.contains name :=
  any_foldl_texts name keys []

theorem names_repositoryOf (g : Grammar) :
    names (repositoryOf g) = .ok (Value.distinct (g.names.map .text)) := by
  rw [names, membersOrNone_repositoryOf, ok_bind, unhashableIn?_texts]
  rfl

theorem follow_passing {α : Type} {f : String → Value → Except Fault (List α)}
    {found : String → Pattern → List α} {nodes : List (String × Pattern)}
    (h : ∀ location p, f location (ofPattern p) = .ok (found location p)) :
    follow (passing nodes) f = .ok (nodes.flatMap fun n => found n.1 n.2) := by
  have hfound : (passing nodes).visited.mapM (fun n => f n.1 n.2) =
      .ok (nodes.map fun n => found n.1 n.2) := by
    rw [mapM_eq_ok_iff, passing, List.map_map, List.map_map]
    exact List.map_congr_left fun n _ => h n.1 n.2
  rw [follow, hfound, ok_bind, List.flatMap_def]
  rfl

theorem usedEntry_ofPattern (p : Pattern) :
    usedEntry (ofPattern p) = .ok (p.target?.bind Include.entryName?).toList := by
  cases p with
  | reference target =>
      rw [usedEntry.eq_def]
      have hkind : (ofPattern (.reference target)).kind? = some .reference := rfl
      have htext : targetText (ofPattern (.reference target)) = .ok target := rfl
      simp only [hkind, htext, ok_bind]
      rfl
  | matching rule => rfl
  | block rule ps => rfl

theorem isTruthy_repositoryOf (g : Grammar) :
    (repositoryOf g).isTruthy = !g.names.isEmpty := by
  rw [repositoryOf, Grammar.names, Grammar.entries]
  cases g.repository with
  | none => rfl
  | some es => cases es <;> rfl

theorem unusedIssues_ofGrammar (g : Grammar) :
    unusedIssues (ofGrammar g) =
      .ok ((g.names.filter fun name => !(g.targets.filterMap Include.entryName?).contains name).map
        fun name => Issue.unusedEntry name (.text name)) := by
  have hused : (g.walk.flatMap fun n => (n.2.target?.bind Include.entryName?).toList) =
      g.targets.filterMap Include.entryName? := by
    rw [Grammar.targets_eq_filterMap_walk, List.filterMap_filterMap,
      List.filterMap_eq_flatMap_toList]
  have hmembers := membersOrNone_repositoryOf g
  rw [unusedIssues, read_repository, ok_bind, walkGrammar_ofGrammar,
    follow_passing fun _ => usedEntry_ofPattern, hused]
  rw [membersOrNone] at hmembers
  rw [isTruthy_repositoryOf] at hmembers ⊢
  cases hnames : g.names with
  | nil => rfl
  | cons name names =>
      rw [hnames] at hmembers
      rw [show members (repositoryOf g) = _ from hmembers]
      have hsame : ∀ name, (fun used : String => (Value.text name).same (.text used)) =
          fun used => name == used := by
        intro name
        funext used
        rw [Value.same_text]
      rw [List.isEmpty_cons, Bool.not_false, Bool.not_true, if_neg (by decide), ok_bind, ok_bind,
        List.filter_map, List.map_map]
      simp only [Function.comp_def, hsame, List.any_beq]
      rfl

/-- The report on the draft is the report on the grammar. -/
theorem report_ofGrammar (g : Grammar) : report (ofGrammar g) = .ok g.report := by
  have hscope : scopeNameIssues (ofGrammar g) = .ok (Report.ofScopeName g.header.scopeName) := rfl
  rw [report, hscope, ok_bind, read_repository, ok_bind, names_repositoryOf, ok_bind,
    walkGrammar_ofGrammar, follow_passing (patternIssues_ofPattern (any_distinct_texts g.names)),
    ok_bind, unusedIssues_ofGrammar, ok_bind]
  rfl

end Draft
end TextMate
