import TextMate.Schema.Check

/-!
# Drafts

A draft is a model object as a value: some of its fields may be unset, and those
that are set may hold anything.  Every checked object can be seen as a draft, and
a value of any kind can be checked, drafts of the right kind passing as they are.
-/

namespace TextMate
namespace Draft

def ofOption (s : Option String) : Value :=
  match s with
  | some s => .text s
  | none => .null

def ofNamed (es : List (String × Value)) : Value :=
  .dict (es.map fun e => (.text e.1, e.2))

def ofCaptures (captures : Captures Value) : Value :=
  match captures with
  | some es => ofNamed es
  | none => .null

def ofList (vs : Option (List Value)) : Value :=
  match vs with
  | some vs => .list vs
  | none => .null

def capture (name : String) : Value :=
  .record .capture [(.name, .text name)]

def matching (rule : MatchRule Value) : Value :=
  .record .matching
    [(.name, ofOption rule.name), (.regex, .text rule.regex),
      (.captures, ofCaptures rule.captures)]

def block (rule : BlockRule Value) (patterns : Option (List Value)) : Value :=
  .record .block
    [(.name, ofOption rule.name), (.opening, .text rule.opening),
      (.openingCaptures, ofCaptures rule.openingCaptures), (.closing, .text rule.closing),
      (.closingCaptures, ofCaptures rule.closingCaptures),
      (.captures, ofCaptures rule.captures), (.contentName, ofOption rule.contentName),
      (.patterns, ofList patterns)]

def reference (target : String) : Value :=
  .record .reference [(.target, .text target)]

def grammar (h : Header) (patterns : Option (List Value))
    (repository : Option (List (String × Value))) : Value :=
  .record .grammar
    [(.schemaUri, ofOption h.schemaUri), (.name, ofOption h.name),
      (.scopeName, .text h.scopeName),
      (.fileTypes, ofList (h.fileTypes.map fun types => types.map .text)),
      (.foldingStartMarker, ofOption h.foldingStartMarker),
      (.foldingStopMarker, ofOption h.foldingStopMarker),
      (.firstLineMatch, .text h.firstLineMatch),
      (.injectionSelector, .text h.injectionSelector), (.uuid, .text h.uuid),
      (.patterns, ofList patterns),
      (.repository,
        match repository with
        | some es => ofNamed es
        | none => .null)]

def given (kinds : Kind → Bool) (v : Value) : Option Value :=
  match v with
  | .record kind _ => if kinds kind then some v else none
  | _ => none

/-- Drafts are assembled from checked parts and from drafts that are parts already. -/
def assembly : Schema.Assembly Value Value Value where
  capture := capture
  matching := matching
  block := block
  reference := reference
  grammar := grammar
  captureGiven := given (· == .capture)
  patternGiven := given Kind.isPattern
  grammarGiven := given (· == .grammar)

def ofCheckedCaptures (captures : Captures Capture) : Captures Value :=
  captures.map fun es => es.map fun e => (e.1, capture e.2.name)

mutual

def ofPattern : Pattern → Value
  | .matching rule =>
      matching ⟨rule.name, rule.regex, ofCheckedCaptures rule.captures⟩
  | .block rule patterns =>
      block
        ⟨rule.name, rule.opening, ofCheckedCaptures rule.openingCaptures, rule.closing,
          ofCheckedCaptures rule.closingCaptures, ofCheckedCaptures rule.captures,
          rule.contentName⟩
        (ofPatterns? patterns)
  | .reference target => reference target

def ofPatterns? : Option (List Pattern) → Option (List Value)
  | none => none
  | some ps => some (ofPatterns ps)

def ofPatterns : List Pattern → List Value
  | [] => []
  | p :: ps => ofPattern p :: ofPatterns ps

end

def ofGrammar (g : Grammar) : Value :=
  grammar g.header (ofPatterns? g.patterns)
    (g.repository.map fun es => es.map fun e => (e.1, ofPattern e.2))

end Draft
end TextMate
