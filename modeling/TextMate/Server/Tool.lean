import TextMate.Catalog.Basic
import TextMate.Json.Printer

/-!
# Tools

The tools of the server work on a catalog and answer with a document: either a
success with its details or an error with the words for the failure.
-/

namespace TextMate
namespace Server

open Catalog (Failure Work)

/-- The tools, in the order in which the server offers them. -/
inductive Tool where
  | list
  | describe
  | validate
  | copyToProject
  | render
  | renderSource
  | export
  deriving DecidableEq, Repr

def Tool.all : List Tool :=
  [.list, .describe, .validate, .copyToProject, .render, .renderSource, .export]

def Tool.name : Tool → String
  | .list => "grammar_list"
  | .describe => "grammar_describe"
  | .validate => "grammar_validate"
  | .copyToProject => "grammar_copy_to_project"
  | .render => "grammar_render"
  | .renderSource => "grammar_render_source"
  | .export => "grammar_export"

/-- A call of a tool.  Formats are given as values, for a caller may leave out the check. -/
inductive Call where
  | list
  | describe (name : String)
  | validate (name : String)
  | copyToProject (name : String)
  | render (name : String) (format : Value)
  | renderSource (source : String) (sourceFormat format : Value)
  | export (name : String) (format : Value) (outputName : Option String)

def Call.tool : Call → Tool
  | .list => .list
  | .describe _ => .describe
  | .validate _ => .validate
  | .copyToProject _ => .copyToProject
  | .render _ _ => .render
  | .renderSource _ _ _ => .renderSource
  | .export _ _ _ => .export

/-! ## Answers -/

def success (details : List (String × Tree)) : Tree :=
  .object (("status", .text "success") :: details)

def failed (message : String) : Tree :=
  .object [("status", .text "error"), ("message", .text message)]

def notFound (name : String) : Tree :=
  failed ("Grammar '" ++ name ++ "' not found.")

def optionalText (s : Option String) : Tree :=
  match s with
  | some s => .text s
  | none => .null

def texts (ss : List String) : Tree :=
  .list (ss.map .text)

def summaryTree (s : Summary) : Tree :=
  .object
    [("name", .text s.name), ("scope_name", .text s.scopeName),
      ("display_name", optionalText s.displayName), ("file_types", texts s.fileTypes),
      ("pattern_count", .int s.patternCount), ("repository_count", .int s.repositoryCount),
      ("path", optionalText s.path)]

def issueTree (i : Issue) : Tree :=
  .object
    [("code", .text i.code), ("message", .text i.message),
      ("location", optionalText i.location)]

def reportDetails (r : Report) : List (String × Tree) :=
  let issues (severity : Severity) : Tree := .list ((r.withSeverity severity).map issueTree)
  [("valid", .bool r.isValid), ("errors", issues .error), ("warnings", issues .warning),
    ("info", issues .info)]

def renderingDetails (r : Rendering) : List (String × Tree) :=
  [("format", .text r.format.name), ("content", .text r.text), ("warnings", texts r.warnings)]

/-! ## Calls -/

def readFormat (v : Value) : Work Format :=
  match Format.ofValue v with
  | .ok format => return format
  | .error e => throw (.format e)

def withGrammar (name : String) (f : Grammar → Work Tree) : Work Tree := do
  match ← Catalog.grammar? name with
  | some g => f g
  | none => return notFound name

def exportPath (output : Files.Path) (name : String) (format : Format) : Files.Path :=
  output.join (name ++ ".tmLanguage." ++ format.name)

/-- The answer to a call, if nothing fails; `output` is the directory for exported grammars. -/
def Call.run (output : Files.Path) : Call → Work Tree
  | .list => do
      let summaries ← Catalog.list
      return success
        [("grammars", .list (summaries.map summaryTree)), ("count", .int summaries.length)]
  | .describe name =>
      withGrammar name fun g => do
        let path := (← get).findFile? name
        return success
          [("grammar", summaryTree (g.summary name (path.map Files.Path.text))),
            ("repository", texts g.sortedNames)]
  | .validate name =>
      withGrammar name fun g => return success (reportDetails g.report)
  | .copyToProject name => do
      match ← Catalog.copyToProject name with
      | none => return notFound name
      | some path =>
          return success
            [("path", .text path.text),
              ("message", .text ("Copied grammar '" ++ name ++ "' to project"))]
  | .render name format =>
      withGrammar name fun g => do
        let rendering ← Catalog.render g (← readFormat format)
        return success
          (renderingDetails rendering
            ++ [("message", .text
              ("Rendered grammar '" ++ name ++ "' as " ++ rendering.format.name ++ "."))])
  | .renderSource source sourceFormat format => do
      match Grammar.ofText (← readFormat sourceFormat) source with
      | .error e => throw (.source e)
      | .ok g => return success (renderingDetails (← Catalog.render g (← readFormat format)))
  | .export name format outputName =>
      withGrammar name fun g => do
        let format ← readFormat format
        let stem := if Issue.shows outputName then outputName.getD name else name
        let path := exportPath output stem format
        let rendering ← Catalog.write g path (.text format.name)
        return success
          [("path", .text path.text), ("format", .text format.name),
            ("warnings", texts rendering.warnings),
            ("message", .text ("Exported grammar '" ++ name ++ "' to " ++ path.text ++ "."))]

/-- The answer to a call; a failure is an answer too. -/
def Call.answer (output : Files.Path) (call : Call) (c : Catalog) : Tree × Catalog :=
  match (call.run output).run.run c with
  | (.ok t, c) => (t, c)
  | (.error failure, c) => (failed failure.message, c)

def Call.answerText (output : Files.Path) (call : Call) (c : Catalog) : String × Catalog :=
  let (t, c) := call.answer output c
  (Json.printLine t, c)

end Server
end TextMate
