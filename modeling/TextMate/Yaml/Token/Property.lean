import TextMate.Yaml.Cursor
import TextMate.Yaml.Token

/-!
# Properties and directives

Reading of the tokens that stand beside the content of a document: anchors and
aliases, tags with their handles and escaped characters, and the directives
before a document.  Every function reads from the first character of what it is
named for and returns the cursor behind it.
-/

namespace TextMate
namespace Yaml

open Text

def scanAnchorName (isAlias : Bool) (c : Cursor) : Except Fault (String × Cursor) :=
  let start := c.mark
  let context : Context := if isAlias then .alias else .anchor
  let (name, behind) := c.next.takeWhile isNameChar
  if name.isEmpty then
    c.next.failIn context start (.expectedName c.next.peek)
  else if isSpaceOrEnd behind.peek
      || ['?', ':', ',', ']', '\x7d', '%', '@', '\x60'].contains behind.peek then
    .ok (String.ofList name, behind)
  else behind.failIn context start (.expectedName behind.peek)

/-- The characters of a tag or of the replacement of a handle, the per cent sign excepted. -/
def isUriChar (c : Char) : Bool :=
  (c.isAlphanum && c.toNat < 0x80) || "-;/?:@&=+$,_.!~*'()[]".toList.contains c

def isHexDigit (c : Char) : Bool :=
  c.isDigit || ('a' <= c && c <= 'f') || ('A' <= c && c <= 'F')

def hexValue (cs : List Char) : Nat :=
  cs.foldl (fun n c => n * 16 + (Decimal.digitValue? c).getD 0) 0

/-- A run of bytes, each written as a per cent sign and two hexadecimal digits. -/
def scanUriBytes (context : Context) (start : Mark) :
    Nat → Cursor → Except Fault (List UInt8 × Cursor)
  | 0, c => .ok ([], c)
  | fuel + 1, c => do
      if c.peek != '%' then return ([], c)
      let c := c.next
      unless isHexDigit c.peek do
        c.failIn context start (.expectedUriEscape c.peek)
      unless isHexDigit (c.peekAt 1) do
        c.failIn context start (.expectedUriEscape (c.peekAt 1))
      let byte := UInt8.ofNat (hexValue (c.rest.take 2))
      let (bytes, c) ← scanUriBytes context start fuel (c.skip 2)
      return (byte :: bytes, c)

def scanUriChars (context : Context) (start : Mark) :
    Nat → Cursor → Except Fault (List Char × Cursor)
  | 0, c => .ok ([], c)
  | fuel + 1, c => do
      let (cs, c) := c.takeWhile isUriChar
      if c.peek != '%' then return (cs, c)
      let (bytes, behind) ← scanUriBytes context start c.rest.length c
      match decodeUtf8 bytes with
      | .error fault => c.failIn context start (.undecodableUri fault)
      | .ok text =>
          let (more, c) ← scanUriChars context start fuel behind
          return (cs ++ text.toList ++ more, c)

def scanUri (scanning parsing : Context) (start : Mark) (c : Cursor) :
    Except Fault (String × Cursor) := do
  if !isUriChar c.peek && c.peek != '%' then
    c.failIn parsing start (.expectedUri c.peek)
  let (cs, c) ← scanUriChars scanning start (c.rest.length + 1) c
  return (String.ofList cs, c)

/-- A handle: an exclamation mark alone, or a name between two of them. -/
def scanHandle (context : Context) (start : Mark) (c : Cursor) :
    Except Fault (String × Cursor) := do
  unless c.peek == '!' do
    c.failIn context start (.expectedExclamation c.peek)
  if c.peekAt 1 == ' ' then return ("!", c.next)
  let (name, behind) := c.next.takeWhile isNameChar
  unless behind.peek == '!' do
    behind.failIn context start (.expectedExclamation behind.peek)
  return (String.ofList ('!' :: name ++ ['!']), behind.next)

/-- Whether another exclamation mark follows before the tag at the cursor ends. -/
def hasHandle (c : Cursor) : Bool :=
  let tag := (c.rest.drop 1).takeWhile fun ch => !isBlankOrEnd ch
  tag.contains '!'

def scanTag (c : Cursor) : Except Fault ((Option String × String) × Cursor) := do
  let start := c.mark
  let (tag, c) ← (show Except Fault ((Option String × String) × Cursor) from
    if c.peekAt 1 == '<' then do
      let (suffix, c) ← scanUri .tag .tagParsing start (c.skip 2)
      unless c.peek == '>' do
        c.failIn .tagParsing start (.expectedAngle c.peek)
      return ((none, suffix), c.next)
    else if isSpaceOrEnd (c.peekAt 1) then
      return ((none, "!"), c.next)
    else do
      let (handle, c) ←
        if hasHandle c then scanHandle .tag start c else pure ("!", c.next)
      let (suffix, c) ← scanUri .tag .tagParsing start c
      return ((some handle, suffix), c))
  unless isBlankOrEnd c.peek do
    c.failIn .tag start (.expectedBlank c.peek)
  return (tag, c)

def scanLineEnd (context : Context) (start : Mark) (c : Cursor) : Except Fault Cursor := do
  let c := c.skipBlanks
  let c := if c.peek == '#' then c.skipWhile (fun ch => !isBreakOrEnd ch) else c
  unless isBreakOrEnd c.peek do
    c.failIn context start (.expectedCommentOrBreak c.peek)
  return c.lineBreak.2

def scanVersionNumber (start : Mark) (c : Cursor) : Except Fault (Nat × Cursor) := do
  unless c.peek.isDigit do
    c.failIn .directive start (.expectedDigit c.peek)
  let (digits, c) := c.takeWhile Char.isDigit
  if Decimal.maxDigits < digits.length then throw (.tooManyDigits digits.length)
  return (Decimal.ofDigits 10 (digits.map fun d => d.toNat - '0'.toNat), c)

def scanVersion (start : Mark) (c : Cursor) : Except Fault (Directive × Cursor) := do
  let (major, c) ← scanVersionNumber start c.skipBlanks
  unless c.peek == '.' do
    c.failIn .directive start (.expectedDigitOrDot c.peek)
  let (minor, c) ← scanVersionNumber start c.next
  unless isBlankOrEnd c.peek do
    c.failIn .directive start (.expectedDigitOrBlank c.peek)
  return (.version major minor, c)

def scanHandleDirective (start : Mark) (c : Cursor) : Except Fault (Directive × Cursor) := do
  let (handle, c) ← scanHandle .directive start c.skipBlanks
  unless c.peek == ' ' do
    c.failIn .directive start (.expectedBlank c.peek)
  let (replacement, c) ← scanUri .directive .directiveParsing start c.skipBlanks
  unless isBlankOrEnd c.peek do
    c.failIn .directive start (.expectedBlank c.peek)
  return (.handle handle replacement, c)

/-- A directive, and the mark at its end; the rest of its line is read as well. -/
def scanDirective (c : Cursor) : Except Fault ((Directive × Mark) × Cursor) := do
  let start := c.mark
  let (name, c) := c.next.takeWhile isNameChar
  if name.isEmpty then c.failIn .directive start (.expectedName c.peek)
  unless isBlankOrEnd c.peek do
    c.failIn .directive start (.expectedName c.peek)
  let (directive, stop, c) ← (show Except Fault (Directive × Mark × Cursor) from
    if name == "YAML".toList then do
      let (directive, c) ← scanVersion start c
      return (directive, c.mark, c)
    else if name == "TAG".toList then do
      let (directive, c) ← scanHandleDirective start c
      return (directive, c.mark, c)
    else
      return (.reserved (String.ofList name), c.mark,
        c.skipWhile fun ch => !isBreakOrEnd ch))
  let c ← scanLineEnd .directive start c
  return ((directive, stop), c)

end Yaml
end TextMate
