import TextMate.Proofs.Json.ReadPrint
import TextMate.Proofs.Server.Export

/-!
# Answers of the rendering tools

A grammar is rendered under its name, from its text, or into a file.  The three
tools read the grammar, read the format and render in the same order, so they fail
together with the same words, and where they succeed they have the same content.
Answers are compared as a caller sees them: decoded from their JSON.
-/

namespace TextMate
namespace Server

open Catalog Files

variable {c c' : Catalog} {output : Path} {name : String} {format : Value}
  {outputName : Option String}

/-!
## Decoded answers
-/

def decodedAnswer (output : Path) (call : Call) (c : Catalog) : Except Json.ReadError Value :=
  Json.read (call.answerText output c).1

def member? (key : String) (answer : Value) : Option Value :=
  match answer with
  | .dict es => (es.find? fun e => e.1.same (.text key)).map (·.2)
  | _ => none

theorem ofTexts_failed (message : String) : (failed message).OfTexts := by
  refine .object (by simp) ?_
  intro m hm
  simp only [List.mem_cons, List.not_mem_nil, or_false] at hm
  rcases hm with rfl | rfl
  · exact .text _
  · exact .text _

theorem ofTexts_texts (ss : List String) : (texts ss).OfTexts := by
  refine .list ?_
  intro t ht
  rcases List.mem_map.mp ht with ⟨s, _, rfl⟩
  exact .text s

theorem ofTexts_success {details : List (String × Tree)}
    (hnodup : ("status" :: details.map (·.1)).Nodup) (h : ∀ m ∈ details, m.2.OfTexts) :
    (success details).OfTexts := by
  refine .object hnodup ?_
  intro m hm
  rcases List.mem_cons.mp hm with rfl | hm
  · exact .text _
  · exact h m hm

theorem decodedAnswer_of_ok {call : Call} {t : Tree} (h : (call.run output).on c = (.ok t, c'))
    (ht : t.OfTexts) : decodedAnswer output call c = .ok t.value := by
  have hanswer : call.answer output c = (t, c') := by
    unfold Call.answer
    rw [show (call.run output).run.run c = _ from h]
  rw [decodedAnswer, Call.answerText, hanswer]
  exact Json.read_printLine ht

theorem decodedAnswer_of_error {call : Call} {e : Failure}
    (h : (call.run output).on c = (.error e, c')) :
    decodedAnswer output call c = .ok (failed e.message).value := by
  have hanswer : call.answer output c = (failed e.message, c') := by
    unfold Call.answer
    rw [show (call.run output).run.run c = _ from h]
  rw [decodedAnswer, Call.answerText, hanswer]
  exact Json.read_printLine (ofTexts_failed _)

theorem member?_object (key : String) (members : List (String × Tree)) :
    member? key (Tree.object members).value =
      (members.find? fun m => m.1 == key).map fun m => m.2.value := by
  rw [Tree.value_object, member?, List.find?_map, Option.map_map]
  have hsame : ((fun e : Value × Value => e.1.same (.text key)) ∘
      fun m : String × Tree => (.text m.1, m.2.value)) = fun m => m.1 == key := by
    funext m
    exact Value.same_text m.1 key
  rw [hsame]
  rfl

theorem answerText_snd (output : Path) (call : Call) (c : Catalog) :
    (call.answerText output c).2 = ((call.run output).on c).2 := by
  rw [Call.answerText, Call.answer]
  rcases hrun : (call.run output).on c with ⟨answer, c'⟩
  rw [show (call.run output).run.run c = _ from hrun]
  cases answer with
  | ok t => rfl
  | error e => rfl

theorem member?_failed (message : String) :
    member? "status" (failed message).value = some (.text "error")
      ∧ member? "message" (failed message).value = some (.text message) := by
  rw [failed, member?_object, member?_object]
  constructor <;> rfl

theorem member?_success {key : String} (hkey : key ≠ "status") (details : List (String × Tree)) :
    member? "status" (success details).value = some (.text "success")
      ∧ member? key (success details).value =
        (details.find? fun m => m.1 == key).map fun m => m.2.value := by
  rw [success, member?_object, member?_object]
  constructor
  · rfl
  · rw [List.find?_cons_of_neg (by simpa using Ne.symm hkey)]

/-!
## The three tools
-/

theorem loaded_of_readText {p : Path} {s : String} (h : ((readText p).on c).1 = .ok s) :
    loaded c.files p = (Grammar.ofText p.format s).mapError .source := by
  rw [readText_on] at h
  rw [loaded_eq_bind, h]
  dsimp only [Except.bind]

section Tools

variable {g : Grammar} {source : String} {sourceFormat : Value} {f : Format}

def renderedAs (g : Grammar) (format : Value) (details : Rendering → List (String × Tree)) :
    Except Failure Tree :=
  ((Format.ofValue format).mapError .format).bind fun f =>
    ((g.render f).mapError .dangling).map fun r => success (details r)

def namedDetails (name : String) (r : Rendering) : List (String × Tree) :=
  renderingDetails r
    ++ [("message", .text ("Rendered grammar '" ++ name ++ "' as " ++ r.format.name ++ "."))]

theorem run_render_of_failed {e : Failure} (h : (grammar? name).on c = (.error e, c')) :
    ((Call.render name format).run output).on c = (.error e, c') :=
  Work.on_bind_of_error h

theorem run_render_of_found (h : (grammar? name).on c = (.ok (some g), c')) :
    ((Call.render name format).run output).on c =
      (renderedAs g format (namedDetails name), c') := by
  apply (Work.on_bind_of_ok h).trans
  exact readFormat_answers.bind fun f => render_answers.map fun r => success (namedDetails name r)

theorem run_renderSource_of_error {e : SourceError} (hformat : Format.ofValue sourceFormat = .ok f)
    (h : Grammar.ofText f source = .error e) :
    ((Call.renderSource source sourceFormat format).run output).on c = (.error (.source e), c) := by
  apply (Work.on_bind_of_ok (readFormat_of_ok hformat)).trans
  rw [h]
  rfl

theorem run_renderSource_of_ok (hformat : Format.ofValue sourceFormat = .ok f)
    (h : Grammar.ofText f source = .ok g) :
    ((Call.renderSource source sourceFormat format).run output).on c =
      (renderedAs g format renderingDetails, c) := by
  apply (Work.on_bind_of_ok (readFormat_of_ok hformat)).trans
  rw [h]
  exact readFormat_answers.bind fun f => render_answers.map fun r => success (renderingDetails r)

end Tools

/-!
## Agreement
-/

/-- Two answers have the same status; if it is success they have the same format, content and
warnings, and if it is an error they have the same message. -/
structure SameRendering (a b : Value) : Prop where
  status : ∃ status ∈ ["success", "error"],
    member? "status" a = some (.text status) ∧ member? "status" b = some (.text status)
  success : member? "status" a = some (.text "success") →
    ∀ key ∈ ["format", "content", "warnings"], ∃ v, member? key a = some v ∧ member? key b = some v
  failure : member? "status" a = some (.text "error") →
    ∃ message, member? "message" a = some (.text message)
      ∧ member? "message" b = some (.text message)

/-- An export into a catalog's files agrees with a rendering: it fails with the same answer, and
if it succeeds the file that it names has the content. -/
structure ExportAgrees (rendered exported : Value) (files : Store) : Prop where
  failure : member? "status" rendered = some (.text "error") → exported = rendered
  success : member? "status" exported = some (.text "success") →
    ∃ path content, member? "path" exported = some (.text path)
      ∧ member? "content" rendered = some (.text content)
      ∧ files.find? (Path.ofText path) = some (.file (Text.encodeUtf8 content))
      ∧ ∀ key ∈ ["status", "format", "warnings"], member? key exported = member? key rendered

/-- The tools that render agree on a grammar and a source of it: they all answer, the grammar and
the source are rendered alike, and the export agrees with that. -/
def ToolsAgree (c : Catalog) (output : Path) (name source : String) (sourceFormat format : Value)
    (outputName : Option String) : Prop :=
  ∃ rendered inline exported,
    decodedAnswer output (.render name format) c = .ok rendered
      ∧ decodedAnswer output (.renderSource source sourceFormat format) c = .ok inline
      ∧ decodedAnswer output (.export name format outputName) c = .ok exported
      ∧ SameRendering rendered inline
      ∧ ExportAgrees rendered exported
        ((Call.export name format outputName).answerText output c).2.files

section Agreement

variable {f : Format} {r : Rendering} {files : Store} {path : Path}

theorem sameRendering_failed (message : String) :
    SameRendering (failed message).value (failed message).value := by
  rcases member?_failed message with ⟨hstatus, hmessage⟩
  constructor
  · exact ⟨"error", by simp, hstatus, hstatus⟩
  · intro hsuccess
    rw [hstatus] at hsuccess
    simp at hsuccess
  · intro _
    exact ⟨message, hmessage, hmessage⟩

theorem sameRendering_success (name : String) (r : Rendering) :
    SameRendering (success (namedDetails name r)).value (success (renderingDetails r)).value := by
  have hnamed := fun key hkey => @member?_success key hkey (namedDetails name r)
  have hplain := fun key hkey => @member?_success key hkey (renderingDetails r)
  have hstatus := (hnamed "format" (by decide)).1
  constructor
  · exact ⟨"success", by simp, hstatus, (hplain "format" (by decide)).1⟩
  · intro _ key hkey
    simp only [List.mem_cons, List.not_mem_nil, or_false] at hkey
    rcases hkey with rfl | rfl | rfl
    · exact ⟨_, (hnamed _ (by decide)).2, (hplain _ (by decide)).2⟩
    · exact ⟨_, (hnamed _ (by decide)).2, (hplain _ (by decide)).2⟩
    · exact ⟨_, (hnamed _ (by decide)).2, (hplain _ (by decide)).2⟩
  · intro hfailure
    rw [hstatus] at hfailure
    simp at hfailure

theorem exportAgrees_failed (message : String) :
    ExportAgrees (failed message).value (failed message).value files := by
  constructor
  · intro _
    rfl
  · intro hsuccess
    rw [(member?_failed message).1] at hsuccess
    simp at hsuccess

theorem exportAgrees_refused (name message : String) (r : Rendering) :
    ExportAgrees (success (namedDetails name r)).value (failed message).value files := by
  constructor
  · intro hfailure
    rw [(@member?_success "format" (by decide) _).1] at hfailure
    simp at hfailure
  · intro hsuccess
    rw [(member?_failed message).1] at hsuccess
    simp at hsuccess

theorem exportAgrees_written (name : String) (hformat : r.format = f) (hspelled : path.IsSpelled)
    (hfile : files.find? path = some (.file (Text.encodeUtf8 r.text))) :
    ExportAgrees (success (namedDetails name r)).value (exportedAnswer name path f r).value
      files := by
  have hnamed := fun key hkey => @member?_success key hkey (namedDetails name r)
  have hexported : ∀ key, key ≠ "status" →
      member? "status" (exportedAnswer name path f r).value = some (.text "success")
        ∧ member? key (exportedAnswer name path f r).value = _ := fun key hkey =>
    @member?_success key hkey
      [("path", .text path.text), ("format", .text f.name), ("warnings", texts r.warnings),
        ("message", .text ("Exported grammar '" ++ name ++ "' to " ++ path.text ++ "."))]
  subst hformat
  constructor
  · intro hfailure
    rw [(hnamed "format" (by decide)).1] at hfailure
    simp at hfailure
  · intro _
    refine ⟨path.text, r.text, (hexported "path" (by decide)).2,
      (hnamed "content" (by decide)).2, ?_, ?_⟩
    · rw [hspelled.ofText_text]
      exact hfile
    · intro key hkey
      simp only [List.mem_cons, List.not_mem_nil, or_false] at hkey
      rcases hkey with rfl | rfl | rfl
      · exact (hexported "path" (by decide)).1.trans (hnamed "format" (by decide)).1.symm
      · exact (hexported "format" (by decide)).2.trans (hnamed "format" (by decide)).2.symm
      · exact (hexported "warnings" (by decide)).2.trans (hnamed "warnings" (by decide)).2.symm

end Agreement

theorem ofTexts_renderingDetails (r : Rendering) : ∀ m ∈ renderingDetails r, m.2.OfTexts := by
  intro m hm
  simp only [renderingDetails, List.mem_cons, List.not_mem_nil, or_false] at hm
  rcases hm with rfl | rfl | rfl
  · exact .text _
  · exact .text _
  · exact ofTexts_texts r.warnings

theorem ofTexts_rendered (name : String) (r : Rendering) :
    (success (namedDetails name r)).OfTexts ∧ (success (renderingDetails r)).OfTexts := by
  constructor
  · apply ofTexts_success
    · simp [namedDetails, renderingDetails]
    · intro m hm
      rcases List.mem_append.mp hm with hm | hm
      · exact ofTexts_renderingDetails r m hm
      · rw [List.mem_singleton.mp hm]
        exact .text _
  · apply ofTexts_success
    · simp [renderingDetails]
    · exact ofTexts_renderingDetails r

theorem ofTexts_exportedAnswer (name : String) (path : Path) (f : Format) (r : Rendering) :
    (exportedAnswer name path f r).OfTexts := by
  apply ofTexts_success
  · simp
  · intro m hm
    simp only [List.mem_cons, List.not_mem_nil, or_false] at hm
    rcases hm with rfl | rfl | rfl | rfl
    · exact .text _
    · exact .text _
    · exact ofTexts_texts r.warnings
    · exact .text _

theorem format_of_render {g : Grammar} {f : Format} {r : Rendering} (h : g.render f = .ok r) :
    r.format = f := by
  unfold Grammar.render at h
  cases hprepare : g.prepare with
  | error d =>
      rw [hprepare] at h
      cases h
  | ok prepared =>
      rw [hprepare] at h
      cases h
      rfl

section ToolsAgree

variable {source : String} {sourceFormat : Value}

theorem toolsAgree_of_failed {e : Failure} {c₁ c₂ c₃ : Catalog}
    (hrendered : ((Call.render name format).run output).on c = (.error e, c₁))
    (hinline : ((Call.renderSource source sourceFormat format).run output).on c = (.error e, c₂))
    (hexported : (exporting output name format outputName).on c = (.error e, c₃)) :
    ToolsAgree c output name source sourceFormat format outputName :=
  ⟨_, _, _, decodedAnswer_of_error hrendered, decodedAnswer_of_error hinline,
    decodedAnswer_of_error hexported, sameRendering_failed _, exportAgrees_failed _⟩

theorem toolsAgree_of_rendered {g : Grammar} {f : Format} {r : Rendering} {c₁ c₂ : Catalog}
    (hspelled : output.IsSpelled) (hask : (grammar? name).on c = (.ok (some g), c'))
    (hformat : Format.ofValue format = .ok f) (hrender : g.render f = .ok r)
    (hrendered : ((Call.render name format).run output).on c =
      (.ok (success (namedDetails name r)), c₁))
    (hinline : ((Call.renderSource source sourceFormat format).run output).on c =
      (.ok (success (renderingDetails r)), c₂)) :
    ToolsAgree c output name source sourceFormat format outputName := by
  have hanswers := ofTexts_rendered name r
  rcases @exporting_of_rendered c c' output name format outputName g f r hask hformat hrender with
    ⟨files, hsaves, hexport⟩ | ⟨files, error, _, hexport⟩
  · refine ⟨_, _, _, decodedAnswer_of_ok hrendered hanswers.1,
      decodedAnswer_of_ok hinline hanswers.2,
      decodedAnswer_of_ok hexport (ofTexts_exportedAnswer _ _ _ _),
      sameRendering_success name r, ?_⟩
    apply exportAgrees_written name (format_of_render hrender) (hspelled.join _)
    rw [answerText_snd]
    show ((exporting output name format outputName).on c).2.files.find? _ = _
    rw [hexport]
    exact hsaves.find?
  · exact ⟨_, _, _, decodedAnswer_of_ok hrendered hanswers.1,
      decodedAnswer_of_ok hinline hanswers.2, decodedAnswer_of_error hexport,
      sameRendering_success name r, exportAgrees_refused name _ r⟩

end ToolsAgree

/-- For a grammar that is not kept, and whose file is found and is a text, rendering it under its
name, from that text and into a file agree, whatever format is asked for. -/
theorem rendering_tools_agree {directory f s : String} {p : Path}
    (hkept : c.kept.find? (fun e => e.1 == name) = none) (hfind : c.findFile? name = some p)
    (hread : ((readText p).on c).1 = .ok s) :
    ToolsAgree c (Path.ofText directory) name s
      (.text (if p.suffix = ".json" then "json" else "yaml")) (.text f) outputName := by
  have hsource : Format.ofValue (.text (if p.suffix = ".json" then "json" else "yaml")) =
      .ok p.format := by
    rw [format_of_findFile? hfind]
    split
    · exact ofValue_name .json
    · exact ofValue_name .yaml
  have hloaded := loaded_of_readText hread
  cases hgrammar : Grammar.ofText p.format s with
  | error e =>
      rw [hgrammar] at hloaded
      have hask := grammar?_of_failed hkept hfind hloaded
      exact toolsAgree_of_failed (run_render_of_failed hask)
        (run_renderSource_of_error hsource hgrammar) (exporting_of_unloaded hask)
  | ok g =>
      rw [hgrammar] at hloaded
      have hask := grammar?_of_loaded hkept hfind hloaded
      have hrendered := @run_render_of_found c _ (.ofText directory) name (.text f) g hask
      have hinline := @run_renderSource_of_ok c (.ofText directory) (.text f) g s _ _ hsource
        hgrammar
      cases hformat : Format.ofValue (.text f) with
      | error e =>
          rw [renderedAs, hformat] at hrendered hinline
          exact toolsAgree_of_failed hrendered hinline (exporting_of_unknown hask hformat)
      | ok format =>
          rw [renderedAs, hformat] at hrendered hinline
          cases hrender : g.render format with
          | error d =>
              simp only [Except.mapError, Except.bind, hrender] at hrendered hinline
              exact toolsAgree_of_failed hrendered hinline
                (exporting_of_dangling hask hformat hrender)
          | ok r =>
              simp only [Except.mapError, Except.bind, hrender] at hrendered hinline
              exact toolsAgree_of_rendered (Path.isSpelled_ofText directory) hask hformat hrender
                hrendered hinline

/-- The tools agree on the grammar of a library. -/
theorem holding_tools_agree :
    holding.kept.find? (fun e => e.1 == "a") = none
      ∧ holding.findFile? "a" = some ⟨.here, ["library", "a.json"]⟩
      ∧ ((readText ⟨.here, ["library", "a.json"]⟩).on holding).1 = .ok plainestText
      ∧ ToolsAgree holding (Path.ofText "out") "a" plainestText (.text "json") (.text "JSON")
        (some "b") := by
  have hfind : holding.findFile? "a" = some ⟨.here, ["library", "a.json"]⟩ := rfl
  have hread : ((readText ⟨.here, ["library", "a.json"]⟩).on holding).1 = .ok plainestText := by
    rw [readText_on, textIn_of_find? rfl]
    exact textOf_plainestText
  have hsuffix : (Files.Path.mk .here ["library", "a.json"]).suffix = ".json" := by
    decide +kernel
  have hagree := @rendering_tools_agree holding "a" (some "b") "out" "JSON" plainestText _ rfl
    hfind hread
  rw [if_pos hsuffix] at hagree
  exact ⟨rfl, hfind, hread, hagree⟩

end Server
end TextMate
