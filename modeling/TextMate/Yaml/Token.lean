import TextMate.Yaml.Mark
import TextMate.Text.Codes

/-!
# Tokens

A document is first cut into tokens: indicators, properties of nodes, scalars,
and the starts and ends of block collections, which have no characters of their
own.
-/

namespace TextMate
namespace Yaml

/-- What a directive at the head of a document announces. -/
inductive Directive where
  | version (major minor : Nat)
  | handle (handle replacement : String)
  | reserved (name : String)
  deriving DecidableEq, Repr

/-- The text of a scalar.  Escapes may spell halves of pairs, so it is a list of codes. -/
structure ScalarText where
  codes : Text.Codes
  plain : Bool
  deriving DecidableEq, Repr

inductive TokenKind where
  | streamStart
  | streamEnd
  | directive (content : Directive)
  | documentStart
  | documentEnd
  | blockSequenceStart
  | blockMappingStart
  | blockEnd
  | flowSequenceStart
  | flowMappingStart
  | flowSequenceEnd
  | flowMappingEnd
  | key
  | value
  | blockEntry
  | flowEntry
  | alias (name : String)
  | anchor (name : String)
  | tag (handle : Option String) (suffix : String)
  | scalar (content : ScalarText)
  deriving DecidableEq, Repr

def TokenKind.id : TokenKind → String
  | .streamStart => "<stream start>"
  | .streamEnd => "<stream end>"
  | .directive _ => "<directive>"
  | .documentStart => "<document start>"
  | .documentEnd => "<document end>"
  | .blockSequenceStart => "<block sequence start>"
  | .blockMappingStart => "<block mapping start>"
  | .blockEnd => "<block end>"
  | .flowSequenceStart => "["
  | .flowMappingStart => "\x7b"
  | .flowSequenceEnd => "]"
  | .flowMappingEnd => "\x7d"
  | .key => "?"
  | .value => ":"
  | .blockEntry => "-"
  | .flowEntry => ","
  | .alias _ => "<alias>"
  | .anchor _ => "<anchor>"
  | .tag _ _ => "<tag>"
  | .scalar _ => "<scalar>"

structure Token where
  kind : TokenKind
  start : Mark
  stop : Mark
  deriving DecidableEq, Repr

end Yaml
end TextMate
