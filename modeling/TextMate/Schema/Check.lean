import TextMate.Schema.Site
import TextMate.Value.Fields
import TextMate.Grammar.Basic

/-!
# Checking grammars

A value is a grammar when it is a mapping with the right fields: each under its
document key or, where calls use another word, under that word, but not under
both, and no others.  Patterns are told apart by their keys: one with `include`
is a reference, one with `begin` or `end` a block, any other a matching pattern.
Blocks nest at most 255 deep.

The check is told how to assemble what it accepts, and which values it takes as
finished objects without looking inside.
-/

namespace TextMate
namespace Schema

/-- How accepted parts are assembled: captures `κ`, patterns `π` and grammars `γ`, and which
values are such objects already. -/
structure Assembly (κ π γ : Type) where
  capture : String → κ
  matching : MatchRule κ → π
  block : BlockRule κ → Option (List π) → π
  reference : String → π
  grammar : Header → Option (List π) → Option (List (String × π)) → γ
  captureGiven : Value → Option κ
  patternGiven : Value → Option π
  grammarGiven : Value → Option γ

/-- The greatest number of blocks inside each other.  What stands at the bottom of them is not
counted, so that the last levels before the bound are approximate. -/
def maxNesting : Nat := 255

/-- The form of a pattern, by which it is checked. -/
inductive PatternTag where
  | matching
  | block
  | reference
  deriving DecidableEq, Repr

def PatternTag.word : PatternTag → String
  | .matching => "match"
  | .block => "begin_end"
  | .reference => "include"

def PatternTag.ofEntries (es : List (Value × Value)) : PatternTag :=
  let has (name : String) : Bool := es.any fun e => (Value.text name).same e.1
  if has "include" then .reference
  else if has "begin" || has "end" then .block
  else .matching

/-- The entries of an object's mapping, its place and its kind. -/
structure Form where
  kind : Kind
  site : Site
  entries : List (Value × Value)

namespace Form

variable {α : Type}

def required (form : Form) (field : Field) (check : Site → Verdict α) : Verdict α :=
  form.site.required form.entries (form.kind.key field) field.label check

def optional (form : Form) (field : Field) (check : Site → Verdict α) : Verdict (Option α) :=
  form.site.defaulted form.entries (form.kind.key field) field.label none
    (Site.optional check)

def defaulted (form : Form) (field : Field) (default : α) (check : Site → Verdict α) :
    Verdict α :=
  form.site.defaulted form.entries (form.kind.key field) field.label default check

def closed (form : Form) : Verdict Unit :=
  form.site.noExtras form.entries
    (form.kind.fields.map fun field => (form.kind.key field, field.label))

def isBroken (key : Value) : Bool :=
  match key with
  | .broken _ => true
  | _ => false

/-- Checks the mapping at a site as an object of a kind.  One with a broken key is rejected as
a whole, unless entries that are no fields are ignored. -/
def check (kind : Kind) (s : Site) (fields : Form → Verdict α) : Verdict α :=
  match Site.entries? s.value with
  | some es =>
      if kind != .summary && es.any fun e => isBroken e.1 then s.reject .brokenText
      else fields ⟨kind, s, es⟩
  | none => s.reject (.model kind)

end Form

variable {κ π γ : Type}

def checkCapture (a : Assembly κ π γ) (s : Site) : Verdict κ :=
  match a.captureGiven s.value with
  | some c => .accepted c
  | none =>
      Form.check .capture s fun form =>
        (a.capture <$> form.required .name Site.text) <* form.closed

/-- A key of captures as a text: numbers and other values count as their plain form. -/
def textKey (key : Value) : Value :=
  match key with
  | .text _ | .broken _ => key
  | key => .text key.plainForm

def isLongKey (key : Value) : Bool :=
  match key with
  | .int n => isTooLong n
  | _ => false

def checkCaptures (a : Assembly κ π γ) (s : Site) : Verdict (List (String × κ)) :=
  match s.value with
  | .dict es =>
      if es.any fun e => isLongKey e.1 then s.reject .longKey
      else
        let named := Value.dictOf (es.map fun e => (textKey e.1, e.2))
        Site.mapping (checkCapture a) { s with value := named }
  | _ => s.mapping (checkCapture a)

def checkMatching (a : Assembly κ π γ) (s : Site) : Verdict π :=
  Form.check .matching s fun form =>
    (a.matching <$>
      (MatchRule.mk
        <$> form.optional .name Site.text
        <*> form.defaulted .regex "" Site.text
        <*> form.optional .captures (checkCaptures a)))
      <* form.closed

def checkReference (a : Assembly κ π γ) (s : Site) : Verdict π :=
  Form.check .reference s fun form =>
    (a.reference <$> form.required .target Site.text) <* form.closed

def checkBlockRule (a : Assembly κ π γ) (form : Form) : Verdict (BlockRule κ) :=
  BlockRule.mk
    <$> form.optional .name Site.text
    <*> form.required .opening Site.text
    <*> form.optional .openingCaptures (checkCaptures a)
    <*> form.required .closing Site.text
    <*> form.optional .closingCaptures (checkCaptures a)
    <*> form.optional .captures (checkCaptures a)
    <*> form.optional .contentName Site.text

/-- A block; `inner` checks its patterns. -/
def checkBlock (a : Assembly κ π γ) (inner : Site → Verdict π) (s : Site) : Verdict π :=
  Form.check .block s fun form =>
    (a.block <$> checkBlockRule a form <*> form.optional .patterns (Site.list inner))
      <* form.closed

/-- A pattern.  The first argument is how many blocks may still open, the second one holds the
numbers of blocks that are open: a block inside itself is rejected. -/
def checkPattern (a : Assembly κ π γ) : Nat → List Nat → Site → Verdict π
  | fuel, opened, s =>
      match a.patternGiven s.value with
      | some p => .accepted p
      | none =>
          match s.value with
          | .dict es =>
              let tag := PatternTag.ofEntries es
              let inside := s.labelled [.key tag.word]
              match tag with
              | .matching => checkMatching a inside
              | .reference => checkReference a inside
              | .block =>
                  match fuel with
                  | 0 => inside.reject .recursion
                  | fuel + 1 =>
                      if s.number.any opened.contains then inside.reject .recursion
                      else
                        checkBlock a (checkPattern a fuel (s.number.toList ++ opened)) inside
          | _ => s.reject .pattern

def checkPatterns (a : Assembly κ π γ) (s : Site) : Verdict (List π) :=
  Site.list (checkPattern a maxNesting []) s

def checkHeader (form : Form) : Verdict Header :=
  Header.mk
    <$> form.optional .schemaUri Site.text
    <*> form.optional .name Site.text
    <*> form.required .scopeName Site.text
    <*> form.optional .fileTypes (Site.list Site.text)
    <*> form.optional .foldingStartMarker Site.text
    <*> form.optional .foldingStopMarker Site.text
    <*> form.defaulted .firstLineMatch "" Site.text
    <*> form.defaulted .injectionSelector "" Site.text
    <*> form.required .uuid Site.text

def checkGrammar (a : Assembly κ π γ) (s : Site) : Verdict γ :=
  match a.grammarGiven s.value with
  | some g => .accepted g
  | none =>
      Form.check .grammar s fun form =>
        (a.grammar
          <$> checkHeader form
          <*> form.optional .patterns (checkPatterns a)
          <*> form.optional .repository (Site.mapping (checkPattern a maxNesting [])))
          <* form.closed

end Schema

def Grammar.assembly : Schema.Assembly Capture Pattern Grammar where
  capture := Capture.mk
  matching := .matching
  block := .block
  reference := .reference
  grammar := Grammar.mk
  captureGiven _ := none
  patternGiven _ := none
  grammarGiven _ := none

def Grammar.ofValue (v : Value) : Except (List Schema.Problem) Grammar :=
  (Schema.checkGrammar assembly (Schema.Site.top v)).toExcept

end TextMate
