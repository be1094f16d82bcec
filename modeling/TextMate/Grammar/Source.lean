import TextMate.Schema.Check
import TextMate.Grammar.Format
import TextMate.Json.Reader
import TextMate.Yaml.Node.Value

/-!
# Reading grammars

The text of a grammar is read in its format and has to be a mapping that passes
the check of grammars.
-/

namespace TextMate

/-- Why a text gives no grammar.  Failures to read keep the text they refer to. -/
inductive SourceError where
  | json (source : String) (error : Json.ReadError)
  | yaml (source : String) (fault : Yaml.Fault)
  | notMapping (typeName : String)
  | rejected (problems : List Schema.Problem)

namespace SourceError

def countText (kind : Kind) (problems : List Schema.Problem) : String :=
  toString problems.length ++ " validation error"
    ++ (if problems.length == 1 then "" else "s") ++ " for " ++ kind.title

/-- The words for an error; of several problems only the number. -/
def message : SourceError → String
  | json source error =>
      match error with
      | .malformed _ _ => "Could not parse grammar json: " ++ error.message source
      | .tooLong _ => error.message source
  | yaml source fault =>
      if fault.isFlaw then "Could not parse grammar yaml: " ++ fault.message source
      else fault.message source
  | notMapping typeName => "Grammar document must be a mapping, got " ++ typeName
  | rejected problems => countText .grammar problems

/-- Whether a scalar does not have the form that its tag asks for, or an escape denotes more than a
machine counts. -/
def isFormless : SourceError → Bool
  | yaml _ fault => fault.isFormless
  | _ => false

end SourceError

def Format.read : Format → String → Except SourceError Value
  | .yaml, s => (Yaml.read s).mapError (.yaml s)
  | .json, s => (Json.read s).mapError (.json s)

def Grammar.ofText (format : Format) (s : String) : Except SourceError Grammar := do
  let v ← format.read s
  match v.bare with
  | .dict _ => (Grammar.ofValue v).mapError .rejected
  | other => throw (.notMapping other.typeName)

end TextMate
