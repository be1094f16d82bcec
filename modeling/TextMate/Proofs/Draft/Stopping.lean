import TextMate.Draft.Render
import TextMate.Proofs.Draft.Walking
import TextMate.Proofs.Each

/-!
# Where work on drafts stops

In a grammar whose fields hold what they may, nothing but a stray keeps work from
its end: the walk, every transformation, the report and thus rendering stop at the
first one.  References that dangle come later, because a report that tells of them
is not there before the walk has passed.
-/

namespace TextMate
namespace Draft

section Fields

variable {kind : Kind} {fields : List (Field × Value)} {v : Value}

theorem read_of_get? {f : Field} {w : Value} (h : v.get? f = some w) : read v f = .ok w := by
  rw [read, h]

theorem membersOrNone_ofNamed (es : List (String × Value)) :
    membersOrNone (ofNamed es) = .ok ((es.map (·.1)).map .text) := by
  cases es with
  | nil => rfl
  | cons e es =>
      rw [List.map_map]
      exact congrArg Except.ok (List.map_map ..)

theorem exists_keys (h : v = .null ∨ ∃ es, v = ofNamed es) :
    ∃ keys : List String, membersOrNone v = .ok (keys.map .text) := by
  rcases h with rfl | ⟨es, rfl⟩
  · exact ⟨[], rfl⟩
  · exact ⟨es.map (·.1), membersOrNone_ofNamed es⟩

theorem unhashableIn?_texts (keys : List String) : unhashableIn? (keys.map .text) = none := by
  induction keys with
  | nil => rfl
  | cons key keys ih =>
      rw [List.map_cons, unhashableIn?, ih]
      rfl

theorem exists_names (h : v = .null ∨ ∃ es, v = ofNamed es) : ∃ vs, names v = .ok vs := by
  rcases exists_keys h with ⟨keys, hkeys⟩
  refine ⟨Value.distinct (keys.map .text), ?_⟩
  rw [names, hkeys, ok_bind, unhashableIn?_texts]
  rfl

/-!
## Patterns
-/

theorem exists_captureIssues (location : String) {f : Field} (htyped : IsTyped kind fields)
    (hf : f ∈ kind.fields) (hcontent : contentOf f = .captures) :
    ∃ found, captureIssues location (.record kind fields) f = .ok found := by
  rcases htyped.exists_read hf with ⟨v, hread, hv⟩
  have hslot : f ≠ .patterns := by
    intro heq
    rw [heq] at hcontent
    cases hcontent
  have hmapping : v = .null ∨ ∃ es, v = ofNamed es := by
    rcases hv.null_or_fits hslot with hnull | hfits
    · exact Or.inl hnull
    · rw [hcontent] at hfits
      rcases hfits with ⟨cs, hcs⟩
      exact Or.inr ⟨_, hcs⟩
  rcases exists_keys hmapping with ⟨keys, hkeys⟩
  have heach : ∃ found,
      (keys.map .text).mapM (captureKeyIssues (location ++ "/" ++ f.documentKey)) = .ok found := by
    apply exists_mapM_eq_ok
    intro key hkey
    rcases List.mem_map.mp hkey with ⟨s, _, rfl⟩
    exact ⟨_, rfl⟩
  rcases heach with ⟨found, hfound⟩
  refine ⟨found.flatten, ?_⟩
  rw [captureIssues, hread, ok_bind, hkeys, ok_bind, hfound, ok_bind]
  rfl

theorem targetText_of_read {target : String} (h : read v .target = .ok (.text target)) :
    targetText v = .ok target := by
  rw [targetText, h]
  rfl

theorem IsTypedPattern.exists_patternIssues (h : IsTypedPattern v) (names : List Value)
    (location : String) : ∃ found, patternIssues names location v = .ok found := by
  rcases h with ⟨kind, fields, rfl, _, htyped⟩
  cases kind with
  | reference =>
      rcases htyped.exists_target with ⟨target, hread⟩
      show ∃ found, targetIssues names location (.record .reference fields) = .ok found
      rw [targetIssues, hread, ok_bind, targetText_of_read hread]
      by_cases hempty : (Value.text target).isTruthy = true
      · exact ⟨_, if_pos hempty⟩
      · exact ⟨_, if_neg hempty⟩
  | matching => exact exists_captureIssues location htyped (by decide) rfl
  | block =>
      rcases exists_captureIssues location htyped (f := .captures) (by decide) rfl with
        ⟨both, hboth⟩
      rcases exists_captureIssues location htyped (f := .openingCaptures) (by decide) rfl with
        ⟨opening, hopening⟩
      rcases exists_captureIssues location htyped (f := .closingCaptures) (by decide) rfl with
        ⟨closing, hclosing⟩
      refine ⟨both ++ opening ++ closing, ?_⟩
      rw [patternIssues.eq_def]
      simp only [Value.kind?, hboth, hopening, hclosing, ok_bind]
      rfl
  | _ => exact ⟨[], rfl⟩

theorem IsTypedPattern.exists_usedEntry (h : IsTypedPattern v) :
    ∃ found, usedEntry v = .ok found := by
  rcases h with ⟨kind, fields, rfl, _, htyped⟩
  cases kind with
  | reference =>
      rcases htyped.exists_target with ⟨target, hread⟩
      refine ⟨(Include.entryName? target).toList, ?_⟩
      rw [usedEntry.eq_def]
      simp only [Value.kind?, targetText_of_read hread, ok_bind]
      rfl
  | _ => exact ⟨[], rfl⟩

end Fields

/-!
## Grammars
-/

section Grammar

variable {g : Value} (hg : IsLooseGrammar g)
include hg

theorem IsLooseGrammar.exists_slot :
    ∃ slot, g.get? .patterns = some slot ∧ MayHold .grammar .patterns slot
      ∧ locatedTopLevel g = numbered "patterns/" (slotItems slot) := by
  rcases hg.typed with ⟨fields, rfl, htyped⟩
  rcases htyped.holds .patterns (by decide) with ⟨slot, hget, hslot⟩
  refine ⟨slot, hget, hslot, ?_⟩
  rw [locatedTopLevel, Draft.topLevel, hget]
  rfl

theorem IsLooseGrammar.exists_repository :
    ∃ v, g.get? .repository = some v
      ∧ (v = .null ∧ repositoryEntries g = []
        ∨ ∃ es, v = ofNamed es ∧ repositoryEntries g = es.map fun e => (.text e.1, e.2)) := by
  rcases hg.typed with ⟨fields, rfl, htyped⟩
  rcases htyped.holds .repository (by decide) with ⟨v, hget, hv⟩
  refine ⟨v, hget, ?_⟩
  rcases hv.null_or_fits (by decide) with rfl | ⟨es, rfl⟩
  · apply Or.inl
    rw [repositoryEntries, hget]
    exact ⟨rfl, rfl⟩
  · apply Or.inr
    refine ⟨es, rfl, ?_⟩
    rw [repositoryEntries, hget]
    rfl

theorem IsLooseGrammar.walkGrammar_eq :
    walkGrammar g = (walkAll (locatedTopLevel g)).andThen (walkAll (locatedEntries g)) := by
  rcases hg.exists_slot with ⟨slot, hget, hslot, htop⟩
  rcases hg.exists_repository with ⟨v, hv, hrepository⟩
  have hentries : Draft.entries v = .ok (repositoryEntries g) := by
    rcases hrepository with ⟨rfl, hes⟩ | ⟨es, rfl, hes⟩
    · rw [hes]
      rfl
    · rw [hes]
      cases es <;> rfl
  rw [walkGrammar, read_of_get? hget, read_of_get? hv, ok_bind, ok_bind, hentries, ok_bind,
    htop, ← hslot.walkSlot_eq, locatedEntries, ← walkEntries_eq_walkAll]
  rfl

theorem IsLooseGrammar.isTypedPattern_of_visited {n : String × Value}
    (hn : n ∈ (walkGrammar g).visited) : IsTypedPattern n.2 := by
  rw [hg.walkGrammar_eq] at hn
  rcases Trail.mem_visited_andThen hn with hn | hn
  · rcases mem_visited_walkAll hn with ⟨m, hm, hn⟩
    exact (hg.topLevel m.2 (mem_of_mem_numbered hm)).isTypedPattern_of_visited hn
  · rcases mem_visited_walkAll hn with ⟨m, hm, hn⟩
    rcases List.mem_map.mp hm with ⟨e, he, rfl⟩
    exact (hg.entries e he).isTypedPattern_of_visited hn

theorem IsLooseGrammar.transformGrammar_eq (f : Value → Except Fault Value) :
    ∃ rebuild : List Value → List Value → Value, transformGrammar f g =
      transformAll f (locatedTopLevel g) >>= fun ws =>
        transformAll f (locatedEntries g) >>= fun us => pure (rebuild ws us) := by
  rcases hg.exists_slot with ⟨slot, hget, hslot, htop⟩
  rcases hg.exists_repository with ⟨v, hv, hrepository⟩
  rcases hslot.transformSlot_eq (f := f) "patterns/" with ⟨wrap, hwrap⟩
  have hlift : ∀ v, (liftM (Except.ok v : Except Fault Value) : Work Value) = pure v :=
    fun _ => rfl
  rw [transformGrammar, read_of_get? hget, read_of_get? hv, hlift, hlift, htop]
  rcases hrepository with ⟨rfl, hes⟩ | ⟨es, rfl, hes⟩
  · refine ⟨fun ws _ => (g.put .patterns (wrap ws)).put .repository .null, ?_⟩
    rw [locatedEntries, hes]
    simp only [pure_bind, hwrap, bind_assoc, List.map_nil, transformAll]
  · refine ⟨fun ws us => (g.put .patterns (wrap ws)).put .repository
      (.dict (((repositoryEntries g).map (·.1)).zip us)), ?_⟩
    rw [locatedEntries, hes]
    simp only [pure_bind, hwrap, bind_assoc, ofNamed, transformEntries_eq, map_bind, map_pure]

end Grammar

/-!
## Reports
-/

theorem follow_eq_error {α : Type} {trail : Trail} {f : String → Value → Except Fault (List α)}
    {fault : Fault} (hvisited : ∀ n ∈ trail.visited, ∃ found, f n.1 n.2 = .ok found)
    (h : trail.fault = some fault) : follow trail f = .error fault := by
  rcases exists_mapM_eq_ok hvisited with ⟨found, hfound⟩
  rw [follow, hfound, h]
  rfl

theorem exists_follow {α : Type} {trail : Trail} {f : String → Value → Except Fault (List α)}
    (hvisited : ∀ n ∈ trail.visited, ∃ found, f n.1 n.2 = .ok found)
    (h : trail.fault = none) : ∃ found, follow trail f = .ok found := by
  rcases exists_mapM_eq_ok hvisited with ⟨found, hfound⟩
  refine ⟨found.flatten, ?_⟩
  rw [follow, hfound, h]
  rfl

section Report

variable {g : Value} (hg : IsLooseGrammar g)
include hg

theorem IsLooseGrammar.exists_scopeNameIssues : ∃ found, scopeNameIssues g = .ok found := by
  rcases hg.typed with ⟨fields, rfl, htyped⟩
  rcases htyped.exists_read (f := .scopeName) (by decide) with ⟨v, hread, hv⟩
  rcases hv.fits_of_required (by simp [Kind.default?]) (by decide) with ⟨name, rfl⟩
  refine ⟨Report.ofScopeName name, ?_⟩
  rw [scopeNameIssues, hread]
  rfl

theorem IsLooseGrammar.exists_patternIssues (names : List Value) :
    ∀ n ∈ (walkGrammar g).visited, ∃ found, patternIssues names n.1 n.2 = .ok found :=
  fun n hn => (hg.isTypedPattern_of_visited hn).exists_patternIssues names n.1

theorem IsLooseGrammar.exists_usedEntry :
    ∀ n ∈ (walkGrammar g).visited, ∃ found, usedEntry n.2 = .ok found :=
  fun _ hn => (hg.isTypedPattern_of_visited hn).exists_usedEntry

theorem IsLooseGrammar.exists_unusedIssues (h : (walkGrammar g).fault = none) :
    ∃ found, unusedIssues g = .ok found := by
  rcases hg.exists_repository with ⟨v, hv, hrepository⟩
  rcases exists_follow (f := fun _ => usedEntry) hg.exists_usedEntry h with ⟨used, hused⟩
  rw [unusedIssues, read_of_get? hv]
  rcases hrepository with ⟨rfl, _⟩ | ⟨es, rfl, _⟩
  · exact ⟨[], rfl⟩
  · cases es with
    | nil => exact ⟨[], rfl⟩
    | cons e es =>
        rw [hused]
        exact ⟨_, rfl⟩

theorem IsLooseGrammar.report_eq :
    ∃ scope names, report g =
      follow (walkGrammar g) (patternIssues names) >>= fun patterns =>
        unusedIssues g >>= fun unused => pure ⟨scope ++ patterns ++ unused⟩ := by
  rcases hg.exists_scopeNameIssues with ⟨scope, hscope⟩
  rcases hg.exists_repository with ⟨v, hv, hrepository⟩
  have hmapping : v = .null ∨ ∃ es, v = ofNamed es := by
    rcases hrepository with ⟨hnull, _⟩ | ⟨es, hes, _⟩
    · exact Or.inl hnull
    · exact Or.inr ⟨es, hes⟩
  rcases exists_names hmapping with ⟨names, hnames⟩
  refine ⟨scope, names, ?_⟩
  rw [report, hscope, ok_bind, read_of_get? hv, ok_bind, hnames, ok_bind]

theorem IsLooseGrammar.exists_report (h : (walkGrammar g).fault = none) :
    ∃ r, report g = .ok r := by
  rcases hg.report_eq with ⟨scope, names, hreport⟩
  rcases exists_follow (hg.exists_patternIssues names) h with ⟨patterns, hpatterns⟩
  rcases hg.exists_unusedIssues h with ⟨unused, hunused⟩
  refine ⟨⟨scope ++ patterns ++ unused⟩, ?_⟩
  rw [hreport, hpatterns, hunused]
  rfl

theorem IsLooseGrammar.report_eq_error {fault : Fault} (h : (walkGrammar g).fault = some fault) :
    report g = .error fault := by
  rcases hg.report_eq with ⟨scope, names, hreport⟩
  rw [hreport, follow_eq_error (hg.exists_patternIssues names) h]
  rfl

end Report

theorem render_eq_error {g : Value} {fault : Fault} (h : report g = .error fault)
    (format : Format) : render format g = .error fault := by
  rw [render, prepare, h]
  rfl

theorem Completes.exists_mapGrammar {f : Value → Except Fault Value} {g : Value}
    (h : Completes (transformGrammar f g)) : ∃ w, mapGrammar f g = .ok w := by
  rcases h with ⟨w, hw⟩
  rcases hw [] with ⟨met, hmet⟩
  refine ⟨w, ?_⟩
  rw [mapGrammar, StateT.run, hmet]
  rfl

theorem StopsWith.mapGrammar_eq_error {f : Value → Except Fault Value} {g : Value} {fault : Fault}
    (h : StopsWith (transformGrammar f g) fault) : mapGrammar f g = .error fault := by
  rw [mapGrammar, StateT.run, h []]
  rfl

/-!
## Agreement on strays
-/

section Agreement

variable {g : Value} (hg : IsLooseGrammar g)
include hg

theorem IsLooseGrammar.fault_of_fails {fault : Fault}
    (h : walking.FailsAll (locatedTopLevel g) fault
      ∨ walking.PassesAll (locatedTopLevel g) ∧ walking.FailsAll (locatedEntries g) fault) :
    (walkGrammar g).fault = some fault := by
  rw [hg.walkGrammar_eq]
  rcases h with htop | ⟨htop, hentries⟩
  · rw [Trail.andThen_of_stopped _ htop]
    exact htop
  · rw [Trail.andThen_of_passed _ htop]
    exact hentries

theorem IsLooseGrammar.exists_mapGrammar {f : Value → Except Fault Value} (hf : Handles f)
    (htop : (transforming f hf).PassesAll (locatedTopLevel g))
    (hentries : (transforming f hf).PassesAll (locatedEntries g)) :
    ∃ w, mapGrammar f g = .ok w := by
  rcases hg.transformGrammar_eq f with ⟨rebuild, htransform⟩
  apply Completes.exists_mapGrammar
  rw [htransform]
  exact Completes.bind htop fun ws => Completes.bind hentries fun us => ⟨_, yields_pure _⟩

theorem IsLooseGrammar.mapGrammar_eq_error {f : Value → Except Fault Value} (hf : Handles f)
    {fault : Fault}
    (h : (transforming f hf).FailsAll (locatedTopLevel g) fault
      ∨ (transforming f hf).PassesAll (locatedTopLevel g)
        ∧ (transforming f hf).FailsAll (locatedEntries g) fault) :
    mapGrammar f g = .error fault := by
  rcases hg.transformGrammar_eq f with ⟨rebuild, htransform⟩
  apply StopsWith.mapGrammar_eq_error
  rw [htransform]
  rcases h with htop | ⟨htop, hentries⟩
  · exact StopsWith.bind htop _
  · exact Completes.bind_stopsWith htop fun ws => StopsWith.bind hentries _

end Agreement

/-- All that goes through the patterns of a draft comes to its end: the walk, transformations with
functions that do not fail, taking marks away, and the report. -/
structure GoesThrough (g : Value) : Prop where
  walk : (walkGrammar g).fault = none
  map : ∀ f : Value → Value, ∃ w, mapGrammar (fun v => .ok (f v)) g = .ok w
  unmark : ∃ w, unmarkIncludes g = .ok w
  report : ∃ r, report g = .ok r

/-- All of it stops with the same fault, and so does rendering in any format. -/
structure StopsAt (g : Value) (fault : Fault) : Prop where
  walk : (walkGrammar g).fault = some fault
  map : ∀ f : Value → Value, mapGrammar (fun v => .ok (f v)) g = .error fault
  unmark : unmarkIncludes g = .error fault
  report : report g = .error fault
  render : ∀ format, render format g = .error fault

/-- Without strays everything goes through, and else everything stops at the first stray, with
this value and its location, whatever references dangle. -/
theorem IsLooseGrammar.goesThrough_or_stopsAt_first_stray {g : Value} (hg : IsLooseGrammar g) :
    (HasNoStray (placeAt? g) ∧ GoesThrough g)
      ∨ ∃ place v, IsFirstStray Place.Precedes (placeAt? g) place v
        ∧ StopsAt g (.shape ⟨v, some (placeText g place)⟩) := by
  -- The place is found before any traversal is chosen, so it is the same for all of them.
  rcases hg.endsAtFirstStray with ⟨hclean, hpasses⟩ | ⟨place, v, hfirst, hfails⟩
  · apply Or.inl
    have hwalk : (walkGrammar g).fault = none := by
      rcases hpasses walking with ⟨htop, hentries⟩
      rw [hg.walkGrammar_eq, Trail.andThen_of_passed _ htop]
      exact hentries
    have hmap : ∀ f : Value → Except Fault Value, Handles f → ∃ w, mapGrammar f g = .ok w := by
      intro f hf
      rcases hpasses (transforming f hf) with ⟨htop, hentries⟩
      exact hg.exists_mapGrammar hf htop hentries
    constructor
    · exact hclean
    · constructor
      · exact hwalk
      · exact fun f => hmap _ (handles_total f)
      · exact hmap _ handles_unmarkTarget
      · exact hg.exists_report hwalk
  · apply Or.inr
    have hwalk := hg.fault_of_fails (hfails walking)
    have hreport := hg.report_eq_error hwalk
    refine ⟨place, v, hfirst, ?_⟩
    constructor
    · exact hwalk
    · exact fun f => hg.mapGrammar_eq_error (handles_total f) (hfails _)
    · exact hg.mapGrammar_eq_error handles_unmarkTarget (hfails _)
    · exact hreport
    · exact render_eq_error hreport

/-- A grammar with strays in a block and in the repository, and with references that dangle before
and behind the first of them. -/
def strewn : Value :=
  grammar ⟨none, none, "source.x", none, none, none, "", "", "u"⟩
    (some [reference "#missing",
      block ⟨none, "(", none, ")", none, none, none⟩ (some [reference "#gone", .int 5]),
      reference "#lost"])
    (some [("stray", .text "x")])

/-- The stray in the block is the first one, where rendering stops too. -/
theorem strewn_stopsAt :
    IsLooseGrammar strewn
      ∧ StopsAt strewn (.shape ⟨.int 5, some "patterns/1/patterns/1"⟩) := by
  have hblock : IsLoose
      (block ⟨none, "(", none, ")", none, none, none⟩ (some [reference "#gone", .int 5])) := by
    apply isLoose_block ⟨none, "(", none, ")", none, none, none⟩
    simp only [Option.getD_some, List.forall_mem_cons]
    exact ⟨isLoose_reference _, .stray rfl, List.forall_mem_nil _⟩
  have hstrewn : IsLooseGrammar strewn := by
    apply isLooseGrammar_grammar
    · simp only [Option.getD_some, List.forall_mem_cons]
      exact ⟨isLoose_reference _, hblock, isLoose_reference _, List.forall_mem_nil _⟩
    · exact List.forall_mem_singleton.mpr (.stray rfl)
  have hwalk : (walkGrammar strewn).fault =
      some (.shape ⟨.int 5, some "patterns/1/patterns/1"⟩) := by rfl
  constructor
  · exact hstrewn
  · rcases hstrewn.goesThrough_or_stopsAt_first_stray with ⟨_, hthrough⟩ | ⟨place, v, _, hstops⟩
    · rw [hthrough.walk] at hwalk
      cases hwalk
    · have hfault := hstops.walk.symm.trans hwalk
      rw [Option.some.inj hfault] at hstops
      exact hstops

end Draft
end TextMate
