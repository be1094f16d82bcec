import TextMate.Calendar
import TextMate.Decimal.Binary64
import TextMate.Text.Codes

/-!
# Values

A value is what a document or a caller may hand over where a part of a grammar
is expected.  Besides the scalars and collections that documents can express,
it may be a *record*: a model object whose fields were filled in without any
check, so that each of them again holds an arbitrary value or nothing at all.

Collections keep their members in order of arrival.  A collection that a
document makes a member of itself, and every collection around such a one, is
written with a number as its anchor; the inner occurrence refers back to it.

A text in which escapes spell halves of pairs is *broken*: it is kept as codes.
-/

namespace TextMate

/-- The model objects: a grammar, its three kinds of pattern, a capture, and the summary
that a listing shows. -/
inductive Kind where
  | grammar
  | matching
  | block
  | reference
  | capture
  | summary
  deriving DecidableEq, Repr, Inhabited

def Kind.title : Kind → String
  | .grammar => "Grammar"
  | .matching => "MatchPattern"
  | .block => "BeginEndPattern"
  | .reference => "IncludePattern"
  | .capture => "Capture"
  | .summary => "GrammarMetadata"

def Kind.isPattern : Kind → Bool
  | .matching | .block | .reference => true
  | .grammar | .capture | .summary => false

inductive Field where
  | schemaUri
  | name
  | scopeName
  | fileTypes
  | foldingStartMarker
  | foldingStopMarker
  | firstLineMatch
  | injectionSelector
  | uuid
  | patterns
  | repository
  | regex
  | captures
  | opening
  | openingCaptures
  | closing
  | closingCaptures
  | contentName
  | target
  | displayName
  | patternCount
  | repositoryCount
  | path
  deriving DecidableEq, Repr, Inhabited

def Field.label : Field → String
  | .schemaUri => "schema_uri"
  | .name => "name"
  | .scopeName => "scope_name"
  | .fileTypes => "file_types"
  | .foldingStartMarker => "folding_start_marker"
  | .foldingStopMarker => "folding_stop_marker"
  | .firstLineMatch => "first_line_match"
  | .injectionSelector => "injection_selector"
  | .uuid => "uuid"
  | .patterns => "patterns"
  | .repository => "repository"
  | .regex => "match"
  | .captures => "captures"
  | .opening => "begin"
  | .openingCaptures => "begin_captures"
  | .closing => "end"
  | .closingCaptures => "end_captures"
  | .contentName => "content_name"
  | .target => "include"
  | .displayName => "display_name"
  | .patternCount => "pattern_count"
  | .repositoryCount => "repository_count"
  | .path => "path"

inductive Value where
  | null
  | bool (b : Bool)
  | int (n : Int)
  | float (x : Decimal.Binary64)
  | text (s : String)
  | broken (codes : Text.Codes)
  | bytes (bs : List UInt8)
  | date (d : Date)
  | moment (m : Moment)
  | list (items : List Value)
  | tuple (items : List Value)
  | set (items : List Value)
  | dict (entries : List (Value × Value))
  | view (entries : List (Value × Value))
  | record (kind : Kind) (fields : List (Field × Value))
  | anchored (anchor : Nat) (value : Value)
  | again (anchor : Nat)
  deriving Inhabited, Repr

namespace Value

def ofCodes (codes : Text.Codes) : Value :=
  match codes.text? with
  | some s => .text s
  | none => .broken codes

@[simp]
theorem ofCodes_ofChars (cs : List Char) :
    ofCodes (Text.Codes.ofChars cs) = .text (String.ofList cs) := by
  simp [ofCodes]

def bare : Value → Value
  | anchored _ v => bare v
  | v => v

def kind? : Value → Option Kind
  | record kind _ => some kind
  | _ => none

def get? (field : Field) : Value → Option Value
  | record _ fields => (fields.find? fun f => f.1 == field).map (·.2)
  | _ => none

def put (v : Value) (field : Field) (value : Value) : Value :=
  match v with
  | record kind fields =>
      if fields.any fun f => f.1 == field then
        record kind (fields.map fun f => if f.1 == field then (field, value) else f)
      else record kind (fields ++ [(field, value)])
  | v => v

/-- Whether a test of the value succeeds: nothing, zero and empty things do not. -/
def isTruthy : Value → Bool
  | null => false
  | bool b => b
  | int n => n != 0
  | float (.finite _ m _) => m != 0
  | float _ => true
  | text s => !s.isEmpty
  | broken codes => !codes.isEmpty
  | bytes bs => !bs.isEmpty
  | list items | tuple items | set items => !items.isEmpty
  | dict entries | view entries => !entries.isEmpty
  | anchored _ v => isTruthy v
  | date _ | moment _ | record _ _ | again _ => true

end Value

end TextMate
