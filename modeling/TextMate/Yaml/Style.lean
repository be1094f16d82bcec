import TextMate.Yaml.Cursor
import TextMate.Yaml.Tag

/-!
# How to write a scalar

A scalar is written plain where it would be read back with its type; else between
single quotes if it has no characters that need an escape and no blanks next to
its line breaks; else between double quotes.
-/

namespace TextMate
namespace Yaml

inductive Style where
  | plain
  | single
  | double
  deriving DecidableEq, Repr

def isKeptBreak (c : Char) : Bool :=
  c == '\n' || c.toNat == 0x85 || c.toNat == 0x2028 || c.toNat == 0x2029

def needsEscape (c : Char) : Bool :=
  let n := c.toNat
  !(c == '\n' || (0x20 <= n && n <= 0x7E)
    || ((n == 0x85 || (0xA0 <= n && n <= 0xD7FF) || (0xE000 <= n && n <= 0xFFFD)
      || (0x10000 <= n && n < 0x10FFFF)) && n != 0xFEFF))

/-- Whether a character at the start of a block scalar without quotes, and the one behind it,
would be read as an indicator. -/
def startsIndicator (c next : Char) : Bool :=
  "#,[]\x7b\x7d&*!|>'\"%@\x60".toList.contains c
    || ((c == '?' || c == ':' || c == '-') && isSpaceOrEnd next)

def isIndicatorAfter (previous c next : Char) : Bool :=
  (c == ':' && isSpaceOrEnd next) || (c == '#' && isSpaceOrEnd previous)

def hasIndicator : Char → List Char → Bool
  | _, [] => false
  | previous, c :: rest =>
      isIndicatorAfter previous c (rest.headD endMark) || hasIndicator c rest

def hasPair (p q : Char → Bool) : List Char → Bool
  | a :: b :: rest => (p a && q b) || hasPair p q (b :: rest)
  | _ => false

def startsBorder (cs : List Char) : Bool :=
  "---".toList.isPrefixOf cs || "...".toList.isPrefixOf cs

def hasSpaceAtEnd (cs : List Char) : Bool :=
  let isSpace (c : Char) : Bool := c == ' ' || isKeptBreak c
  (cs.head?.map isSpace).getD false || (cs.getLast?.map isSpace).getD false

namespace Style

/-- Whether a text with several lines or of some form may be written without quotes in a
block. -/
def allowsPlain (cs : List Char) : Bool :=
  match cs with
  | [] => true
  | c :: rest =>
      !(startsBorder cs || startsIndicator c (rest.headD endMark) || hasIndicator c rest
        || hasSpaceAtEnd cs || cs.any isKeptBreak || cs.any needsEscape)

def allowsSingle (cs : List Char) : Bool :=
  !(hasPair isKeptBreak (· == ' ') cs || hasPair (· == ' ') isKeptBreak cs
    || cs.any needsEscape)

def isMultiline (cs : List Char) : Bool :=
  cs.any isKeptBreak

/-- The style for a scalar.  A simple key is never empty and has a single line. -/
def choose (tag : Tag) (text : String) (isKey : Bool) : Style :=
  let cs := text.toList
  if Tag.ofText text == tag && !(isKey && (cs.isEmpty || isMultiline cs)) && allowsPlain cs then
    plain
  else if allowsSingle cs && !(isKey && isMultiline cs) then single
  else double

end Style
end Yaml
end TextMate
