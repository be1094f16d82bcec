import TextMate.Yaml.Token.Property
import TextMate.Yaml.Token.Scalar

/-!
# Cutting a document into tokens

The lexer reads one token at a time and keeps the columns of the open block
collections.  A colon may turn out to follow a key that has been read already,
so each level of brackets remembers where such a key would have started: the key
sign, and the start of a block mapping if there is one, are then put in front of
it.  A key has to end on its line, within 1024 characters.

When the text stops making sense, only the tokens in front of the first place
that could still become a key are certain; they are kept, together with the
fault.
-/

namespace TextMate
namespace Yaml

structure PossibleKey where
  level : Nat
  number : Nat
  required : Bool
  mark : Mark
  deriving Repr

/-- The state of the lexer; the tokens stand last first, and `size` is the length of the whole
text. -/
structure Lexer where
  size : Nat
  cursor : Cursor
  tokens : List Token
  count : Nat
  level : Nat
  indent : Int
  indents : List Int
  allowKey : Bool
  keys : List PossibleKey
  done : Bool

namespace Lexer

def start (cs : List Char) : Lexer :=
  let c := Cursor.ofText cs
  { size := cs.length
    cursor := c
    tokens := [⟨.streamStart, c.mark, c.mark⟩]
    count := 1
    level := 0
    indent := -1
    indents := []
    allowKey := true
    keys := []
    done := false }

def fuel (l : Lexer) : Nat :=
  l.size + 1

def push (l : Lexer) (kind : TokenKind) (start stop : Mark) : Lexer :=
  { l with tokens := ⟨kind, start, stop⟩ :: l.tokens, count := l.count + 1 }

def insert (l : Lexer) (number : Nat) (kind : TokenKind) (mark : Mark) : Lexer :=
  let behind := l.count - number
  { l with
    tokens := l.tokens.take behind ++ ⟨kind, mark, mark⟩ :: l.tokens.drop behind
    count := l.count + 1 }

def inFlow (l : Lexer) : Bool :=
  l.level != 0

def missingColon (l : Lexer) (key : PossibleKey) : Fault :=
  .flaw ⟨some .simpleKey, some key.mark, .noColon, l.cursor.mark⟩

def dropStaleKeys (l : Lexer) : Except Fault Lexer :=
  let here := l.cursor.mark
  let stale (key : PossibleKey) : Bool :=
    key.mark.line != here.line || 1024 < here.index - key.mark.index
  match l.keys.find? fun key => stale key && key.required with
  | some key => .error (l.missingColon key)
  | none => .ok { l with keys := l.keys.filter fun key => !stale key }

def dropKey (l : Lexer) : Except Fault Lexer :=
  match l.keys.find? fun key => key.level == l.level && key.required with
  | some key => .error (l.missingColon key)
  | none => .ok { l with keys := l.keys.filter fun key => key.level != l.level }

def saveKey (l : Lexer) : Except Fault Lexer := do
  if !l.allowKey then return l
  let required := !l.inFlow && l.indent == (l.cursor.mark.column : Int)
  let l ← l.dropKey
  return { l with keys := l.keys ++ [⟨l.level, l.count, required, l.cursor.mark⟩] }

/-- Ends the block collections that are deeper than a column; there are at most as many as
columns on the stack. -/
def unwind (column : Int) : List Int → Lexer → Lexer
  | [], l => l
  | outer :: outers, l =>
      if column < l.indent then
        let m := l.cursor.mark
        unwind column outers { l.push .blockEnd m m with indent := outer, indents := outers }
      else l

/-- Ends the block collections that are deeper than a column, unless brackets are open. -/
def unwindTo (l : Lexer) (column : Int) : Lexer :=
  if l.inFlow then l else unwind column l.indents l

/-- Begins a block collection at a column if none is open there: the lexer, and whether it
has begun one. -/
def beginBlock (l : Lexer) (column : Nat) : Lexer × Bool :=
  if l.indent < (column : Int) then
    ({ l with indent := column, indents := l.indent :: l.indents }, true)
  else (l, false)

/-- Blanks, comments and line ends in front of the next token.  Outside brackets a key may
begin behind a line end. -/
def skipToToken : Nat → Lexer → Lexer
  | 0, l => l
  | fuel + 1, l =>
      let c := l.cursor.skipBlanks
      let c := if c.peek == '#' then c.skipWhile (fun ch => !isBreakOrEnd ch) else c
      if isBreak c.peek then
        skipToToken fuel
          { l with cursor := c.lineBreak.2, allowKey := l.allowKey || !l.inFlow }
      else { l with cursor := c }

def take (l : Lexer) (kind : TokenKind) (length : Nat) : Lexer :=
  let c := l.cursor.skip length
  { l.push kind l.cursor.mark c.mark with cursor := c }

def streamEnd (l : Lexer) : Except Fault Lexer := do
  let l ← (l.unwindTo (-1)).dropKey
  let m := l.cursor.mark
  return { l.push .streamEnd m m with allowKey := false, keys := [], done := true }

def directive (l : Lexer) : Except Fault Lexer := do
  let l ← (l.unwindTo (-1)).dropKey
  let ((content, stop), c) ← scanDirective l.cursor
  return { l.push (.directive content) l.cursor.mark stop with cursor := c, allowKey := false }

def documentBorder (l : Lexer) (kind : TokenKind) : Except Fault Lexer := do
  let l ← (l.unwindTo (-1)).dropKey
  return { l.take kind 3 with allowKey := false }

def openFlow (l : Lexer) (kind : TokenKind) : Except Fault Lexer := do
  let l ← l.saveKey
  return { l.take kind 1 with level := l.level + 1, allowKey := true }

def closeFlow (l : Lexer) (kind : TokenKind) : Except Fault Lexer := do
  let l ← l.dropKey
  return { l.take kind 1 with level := l.level - 1, allowKey := false }

def flowEntry (l : Lexer) : Except Fault Lexer := do
  let l ← l.dropKey
  return { l.take .flowEntry 1 with allowKey := true }

/-- Begins a block collection at the cursor where none is open, if one may begin. -/
def beginBlockHere (l : Lexer) (kind : TokenKind) (refusal : Problem) : Except Fault Lexer := do
  if l.inFlow then return l
  unless l.allowKey do l.cursor.fail refusal
  let m := l.cursor.mark
  let (l, begun) := l.beginBlock m.column
  return if begun then l.push kind m m else l

def blockEntry (l : Lexer) : Except Fault Lexer := do
  let l ← l.beginBlockHere .blockSequenceStart .noSequenceEntry
  let l ← l.dropKey
  return { l.take .blockEntry 1 with allowKey := true }

def key (l : Lexer) : Except Fault Lexer := do
  let l ← l.beginBlockHere .blockMappingStart .noMappingKey
  let l ← l.dropKey
  return { l.take .key 1 with allowKey := !l.inFlow }

/-- A colon.  It belongs to the key remembered on its level, or follows an empty or marked
one. -/
def value (l : Lexer) : Except Fault Lexer := do
  match l.keys.find? fun key => key.level == l.level with
  | some key =>
      let l := { l with keys := l.keys.filter fun k => k.level != l.level }
      let l := l.insert key.number .key key.mark
      let (l, begun) := if l.inFlow then (l, false) else l.beginBlock key.mark.column
      let l := if begun then l.insert key.number .blockMappingStart key.mark else l
      return { l.take .value 1 with allowKey := false }
  | none =>
      let l ← l.beginBlockHere .blockMappingStart .noMappingValue
      let l ← l.dropKey
      return { l.take .value 1 with allowKey := !l.inFlow }

def anchor (l : Lexer) (isAlias : Bool) : Except Fault Lexer := do
  let l ← l.saveKey
  let (name, c) ← scanAnchorName isAlias l.cursor
  let kind := if isAlias then TokenKind.alias name else .anchor name
  return { l.push kind l.cursor.mark c.mark with cursor := c, allowKey := false }

def tag (l : Lexer) : Except Fault Lexer := do
  let l ← l.saveKey
  let ((handle, suffix), c) ← scanTag l.cursor
  return { l.push (.tag handle suffix) l.cursor.mark c.mark with cursor := c, allowKey := false }

def blockScalar (l : Lexer) (folded : Bool) : Except Fault Lexer := do
  let l ← l.dropKey
  let ((text, stop), c) ← scanBlockScalar l.fuel folded l.indent l.cursor
  return { l.push (.scalar text) l.cursor.mark stop with cursor := c, allowKey := true }

def quotedScalar (l : Lexer) (double : Bool) : Except Fault Lexer := do
  let l ← l.saveKey
  let (text, c) ← scanQuoted l.fuel double l.cursor
  return { l.push (.scalar text) l.cursor.mark c.mark with cursor := c, allowKey := false }

def plainScalar (l : Lexer) : Except Fault Lexer := do
  let l ← l.saveKey
  let scan := scanPlain l.fuel l.inFlow l.indent l.cursor
  let text : ScalarText := ⟨Text.Codes.ofChars scan.text, true⟩
  return { l.push (.scalar text) l.cursor.mark scan.stop with
    cursor := scan.behind, allowKey := scan.brokenLine }

def startsPlain (inFlow : Bool) (ch next : Char) : Bool :=
  !(isSpaceOrEnd ch || "-?:,[]\x7b\x7d#&*!|>'\"%@\x60".toList.contains ch)
    || (!isSpaceOrEnd next && (ch == '-' || (!inFlow && (ch == '?' || ch == ':'))))

def token (l : Lexer) : Except Fault Lexer :=
  let c := l.cursor
  let ch := c.peek
  let spaced := isSpaceOrEnd (c.peekAt 1)
  let atLineStart := c.mark.column == 0
  if ch == endMark then l.streamEnd
  else if ch == '%' && atLineStart then l.directive
  else if atLineStart && c.atMarker '-' then l.documentBorder .documentStart
  else if atLineStart && c.atMarker '.' then l.documentBorder .documentEnd
  else if ch == '[' then l.openFlow .flowSequenceStart
  else if ch == '\x7b' then l.openFlow .flowMappingStart
  else if ch == ']' then l.closeFlow .flowSequenceEnd
  else if ch == '\x7d' then l.closeFlow .flowMappingEnd
  else if ch == ',' then l.flowEntry
  else if ch == '-' && spaced then l.blockEntry
  else if ch == '?' && (l.inFlow || spaced) then l.key
  else if ch == ':' && (l.inFlow || spaced) then l.value
  else if ch == '*' then l.anchor true
  else if ch == '&' then l.anchor false
  else if ch == '!' then l.tag
  else if ch == '|' && !l.inFlow then l.blockScalar false
  else if ch == '>' && !l.inFlow then l.blockScalar true
  else if ch == '\'' then l.quotedScalar false
  else if ch == '"' then l.quotedScalar true
  else if startsPlain l.inFlow ch (c.peekAt 1) then l.plainScalar
  else .error (.flaw ⟨some .nextToken, none, .noToken ch, c.mark⟩)

def step (l : Lexer) : Except Fault Lexer := do
  let l := skipToToken l.fuel l
  let l ← l.dropStaleKeys
  let l ← (l.unwindTo l.cursor.mark.column).token
  l.dropStaleKeys

def ordered (l : Lexer) : List Token :=
  l.tokens.reverse

def certain (l : Lexer) : List Token :=
  match (l.keys.map (·.number)).min? with
  | some number => l.ordered.take number
  | none => l.ordered

/-- Reads all tokens: those that are certain, and the fault at which reading ended, if any. -/
def run : Nat → Lexer → List Token × Option Fault
  | 0, l => (l.ordered, none)
  | fuel + 1, l =>
      if l.done then (l.ordered, none)
      else
        match l.step with
        | .ok l => run fuel l
        | .error fault => (l.certain, some fault)

end Lexer

def isAcceptable (c : Char) : Bool :=
  let n := c.toNat
  n == 0x09 || n == 0x0A || n == 0x0D || (0x20 <= n && n <= 0x7E) || n == 0x85
    || (0xA0 <= n && n <= 0xD7FF) || (0xE000 <= n && n <= 0xFFFD) || 0x10000 <= n

def firstUnacceptable (cs : List Char) : Option (Nat × Nat) :=
  (cs.findIdx? fun c => !isAcceptable c).map fun i => ((cs.getD i endMark).toNat, i)

/-- Cuts a text into tokens.  A byte order mark may come first. -/
def tokenize (cs : List Char) : List Token × Option Fault :=
  match firstUnacceptable cs with
  | some (code, position) => ([], some (.unacceptable code position))
  | none =>
      let l := Lexer.start cs
      let c := l.cursor
      let l := if c.peek.toNat == 0xFEFF then { l with cursor := c.next } else l
      Lexer.run (cs.length + 2) l

end Yaml
end TextMate
