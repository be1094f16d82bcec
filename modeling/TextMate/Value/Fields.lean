import TextMate.Value.Basic

/-!
# Fields of model objects

Which fields the objects of a kind have, in the order in which documents show
them; the key of each in a document; the value of a field that is not given; and
whether a document leaves the field out when it is empty.
-/

namespace TextMate

def Kind.fields : Kind → List Field
  | .grammar =>
      [.schemaUri, .name, .scopeName, .fileTypes, .foldingStartMarker, .foldingStopMarker,
        .firstLineMatch, .injectionSelector, .uuid, .patterns, .repository]
  | .matching => [.name, .regex, .captures]
  | .block =>
      [.name, .opening, .openingCaptures, .closing, .closingCaptures, .captures, .contentName,
        .patterns]
  | .reference => [.target]
  | .capture => [.name]
  | .summary =>
      [.name, .scopeName, .displayName, .fileTypes, .patternCount, .repositoryCount, .path]

def Field.documentKey : Field → String
  | .schemaUri => "$schema"
  | .scopeName => "scopeName"
  | .fileTypes => "fileTypes"
  | .foldingStartMarker => "foldingStartMarker"
  | .foldingStopMarker => "foldingStopMarker"
  | .firstLineMatch => "firstLineMatch"
  | .injectionSelector => "injectionSelector"
  | .openingCaptures => "beginCaptures"
  | .closingCaptures => "endCaptures"
  | .contentName => "contentName"
  | field => field.label

/-- The key of a field of an object of some kind.  A summary is never part of a document, so
its keys are the words used in calls. -/
def Kind.key (kind : Kind) (field : Field) : String :=
  if kind == .summary then field.label else field.documentKey

/-- The value of a field that is not given; a required field has none. -/
def Kind.default? : Kind → Field → Option Value
  | .grammar, .scopeName | .grammar, .uuid => none
  | .grammar, .firstLineMatch | .grammar, .injectionSelector => some (.text "")
  | .matching, .regex => some (.text "")
  | .block, .opening | .block, .closing => none
  | .reference, .target => none
  | .capture, .name => none
  | .summary, .name | .summary, .scopeName => none
  | .summary, .fileTypes => some (.list [])
  | .summary, .patternCount | .summary, .repositoryCount => some (.int 0)
  | _, _ => some .null

def Kind.dropsEmpty : Kind → Field → Bool
  | .grammar, field =>
      !([Field.scopeName, .firstLineMatch, .injectionSelector, .uuid].contains field)
  | .matching, field => field != .regex
  | .block, field => field != .opening && field != .closing
  | .reference, _ | .capture, _ | .summary, _ => false

/-- The object with some fields filled in without any check.  A field is given under its
document key or, failing that, under the word used in calls; other names are ignored. -/
def Value.fill (kind : Kind) (given : List (String × Value)) : Value :=
  let find (name : String) : Option Value :=
    (given.find? fun e => e.1 == name).map (·.2)
  .record kind <| kind.fields.filterMap fun field =>
    ((find (kind.key field)).or ((find field.label).or (kind.default? field))).map
      fun v => (field, v)

end TextMate
