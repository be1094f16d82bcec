import TextMate.Grammar.Report
import TextMate.Schema.Problem

/-!
# What can go wrong with a draft

Work on a draft stops at the first thing that does not fit: a member of a list of
patterns that is no pattern, or a field that is unset or holds a value of a type
that cannot be used there.
-/

namespace TextMate

structure ShapeError where
  value : Value
  location : Option String

def ShapeError.message (e : ShapeError) : String :=
  "Expected a pattern, got " ++ e.value.typeName ++ "."
    ++ (if Issue.shows e.location then " (at " ++ e.location.getD "" ++ ")" else "")

namespace Draft

inductive Fault where
  | shape (error : ShapeError)
  | dangling (references : DanglingReferences)
  | noAttribute (typeName label : String)
  | notIterable (typeName : String)
  | noLength (typeName : String)
  | notText (typeName : String)
  | bytesForText
  | bytesMark
  | unhashable (typeName : String)
  | unordered (left right : String)
  | jsonKey (typeName : String)
  | jsonValue (typeName : String)
  | yamlValue (form : String)
  | rejected (problems : List Schema.Problem)

def Fault.message : Fault → String
  | .shape error => error.message
  | .dangling references => references.message
  | .noAttribute typeName label =>
      "'" ++ typeName ++ "' object has no attribute '" ++ label ++ "'"
  | .notIterable typeName => "'" ++ typeName ++ "' object is not iterable"
  | .noLength typeName => "object of type '" ++ typeName ++ "' has no len()"
  | .notText typeName => "expected string or bytes-like object, got '" ++ typeName ++ "'"
  | .bytesForText => "cannot use a string pattern on a bytes-like object"
  | .bytesMark => "startswith first arg must be bytes or a tuple of bytes, not str"
  | .unhashable typeName => "unhashable type: '" ++ typeName ++ "'"
  | .unordered left right =>
      "'<' not supported between instances of '" ++ left ++ "' and '" ++ right ++ "'"
  | .jsonKey typeName => "keys must be str, int, float, bool or None, not " ++ typeName
  | .jsonValue typeName => "Object of type " ++ typeName ++ " is not JSON serializable"
  | .yamlValue form => "('cannot represent an object', " ++ form ++ ")"
  | .rejected problems => toString problems.length ++ " problems"

end Draft
end TextMate
