import TextMate.Json.Printer
import TextMate.Yaml.Printer
import TextMate.Text.Lowercase
import TextMate.Value.Text

/-!
# Formats of documents

A document is written as YAML or as JSON.  The name of a format may be spelled
with capitals.
-/

namespace TextMate

inductive Format where
  | yaml
  | json
  deriving DecidableEq, Repr

inductive FormatError where
  | unknown (name : String)
  | notText (typeName : String)
  deriving DecidableEq, Repr

def FormatError.message : FormatError → String
  | .unknown name => "Unknown output format: '" ++ name ++ "'. Expected 'yaml' or 'json'."
  | .notText typeName => "'" ++ typeName ++ "' object has no attribute 'lower'"

namespace Format

def name : Format → String
  | yaml => "yaml"
  | json => "json"

def ofName? (s : String) : Option Format :=
  if s == "yaml" then some yaml else if s == "json" then some json else none

def parse? (s : String) : Option Format :=
  ofName? (Text.lowercase s)

def ofValue (v : Value) : Except FormatError Format :=
  match v with
  | .text s =>
      match parse? s with
      | some format => .ok format
      | none => .error (.unknown s)
  | v => .error (.notText v.typeName)

def print : Format → Tree → String
  | yaml, t => Yaml.print t
  | json, t => Json.print t

end Format
end TextMate
