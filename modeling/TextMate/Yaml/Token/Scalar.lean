import TextMate.Yaml.Cursor
import TextMate.Yaml.Token

/-!
# Scalars

Reading of the four ways to write a scalar: plain, between single or double
quotes, and as a block of lines.  Lines are folded: a single line break between
two words becomes a blank, and of several the first one is dropped.  The fuel of
a function is at least one more than the number of characters left.
-/

namespace TextMate
namespace Yaml

open Text

def foldBreaks (lineBreak breaks : List Char) : List Char :=
  if lineBreak != ['\n'] then lineBreak ++ breaks
  else if breaks.isEmpty then [' ']
  else breaks

/-! ## Plain scalars -/

def plainLength (inFlow : Bool) : List Char → Nat
  | [] => 0
  | ch :: rest =>
      let next := rest.headD endMark
      if isSpaceOrEnd ch
          || (ch == ':' && (isSpaceOrEnd next
            || (inFlow && [',', '[', ']', '\x7b', '\x7d'].contains next)))
          || (inFlow && [',', '?', '[', ']', '\x7b', '\x7d'].contains ch)
      then 0
      else plainLength inFlow rest + 1

/-- Breaks and blanks between the lines of a plain scalar; nothing where the border of a
document follows a break. -/
def plainBreaks : Nat → Cursor → Option (List Char) × Cursor
  | 0, c => (some [], c)
  | fuel + 1, c =>
      if c.peek == ' ' then plainBreaks fuel c.next
      else if isBreak c.peek then
        let (br, c) := c.lineBreak
        if c.atDocumentBorder then (none, c)
        else
          let (brs, c) := plainBreaks fuel c
          (brs.map (br ++ ·), c)
      else (some [], c)

def plainSpaces (fuel : Nat) (c : Cursor) : List Char × Bool × Cursor :=
  let (blanks, c) := c.takeWhile (· == ' ')
  if isBreak c.peek then
    let (lineBreak, c) := c.lineBreak
    if c.atDocumentBorder then ([], true, c)
    else
      match plainBreaks fuel c with
      | (none, c) => ([], true, c)
      | (some breaks, c) => (foldBreaks lineBreak breaks, true, c)
  else (blanks, false, c)

/-- What is known after reading a plain scalar. -/
structure PlainScan where
  text : List Char
  stop : Mark
  brokenLine : Bool
  behind : Cursor

/-- The pieces of a plain scalar from the cursor on; `spaces` stands before the next one. -/
def scanPlainPieces (inFlow : Bool) (indent : Int) :
    Nat → List Char → PlainScan → PlainScan
  | 0, _, scan => scan
  | fuel + 1, spaces, scan =>
      let c := scan.behind
      let length := if c.peek == '#' then 0 else plainLength inFlow c.rest
      if length == 0 then scan
      else
        let piece := c.rest.take length
        let behind := c.skip length
        let (next, broken, after) := plainSpaces fuel behind
        let scan := ⟨scan.text ++ spaces ++ piece, behind.mark, broken, after⟩
        if next.isEmpty || after.peek == '#'
            || (!inFlow && (after.mark.column : Int) < indent) then scan
        else scanPlainPieces inFlow indent fuel next scan

/-- A plain scalar; `indent` is that of the enclosing block. -/
def scanPlain (fuel : Nat) (inFlow : Bool) (indent : Int) (c : Cursor) : PlainScan :=
  scanPlainPieces inFlow (indent + 1) fuel [] ⟨[], c.mark, false, c⟩

/-! ## Quoted scalars -/

def shortEscape? (c : Char) : Option Nat :=
  if c == '0' then some 0x00
  else if c == 'a' then some 0x07
  else if c == 'b' then some 0x08
  else if c == 't' || c == '\t' then some 0x09
  else if c == 'n' then some 0x0A
  else if c == 'v' then some 0x0B
  else if c == 'f' then some 0x0C
  else if c == 'r' then some 0x0D
  else if c == 'e' then some 0x1B
  else if c == ' ' || c == '"' || c == '\\' || c == '/' then some c.toNat
  else if c == 'N' then some 0x85
  else if c == '_' then some 0xA0
  else if c == 'L' then some 0x2028
  else if c == 'P' then some 0x2029
  else none

def codeEscapeLength? (c : Char) : Option Nat :=
  if c == 'x' then some 2
  else if c == 'u' then some 4
  else if c == 'U' then some 8
  else none

def quotedBreaks (start : Mark) : Nat → Cursor → Except Fault (List Char × Cursor)
  | 0, c => .ok ([], c)
  | fuel + 1, c => do
      if c.atDocumentBorder then
        c.failIn .quotedScalar start .documentSeparator
      let c := c.skipWhile fun ch => ch == ' ' || ch == '\t'
      if isBreak c.peek then
        let (br, c) := c.lineBreak
        let (brs, c) ← quotedBreaks start fuel c
        return (br ++ brs, c)
      return ([], c)

def quotedSpaces (fuel : Nat) (start : Mark) (c : Cursor) :
    Except Fault (List Char × Cursor) := do
  let (blanks, c) := c.takeWhile fun ch => ch == ' ' || ch == '\t'
  if c.peek == endMark then
    c.failIn .quotedScalar start .endOfStream
  if isBreak c.peek then
    let (lineBreak, c) := c.lineBreak
    let (breaks, c) ← quotedBreaks start fuel c
    return (foldBreaks lineBreak breaks, c)
  return (blanks, c)

def firstNonHex (c : Cursor) (n : Nat) : Option Char :=
  ((List.range n).map c.peekAt).find? fun ch =>
    !(ch.isDigit || ('a' <= ch && ch <= 'f') || ('A' <= ch && ch <= 'F'))

/-- An escape behind its backslash: the codes it stands for. -/
def scanEscape (fuel : Nat) (start : Mark) (c : Cursor) : Except Fault (Codes × Cursor) := do
  let ch := c.peek
  match shortEscape? ch with
  | some code => return ([code], c.next)
  | none =>
      match codeEscapeLength? ch with
      | some length =>
          let c := c.next
          match firstNonHex c length with
          | some found => c.failIn .doubleQuoted start (.expectedHex length found)
          | none =>
              let code :=
                (c.rest.take length).foldl
                  (fun n d => n * 16 + (Decimal.digitValue? d).getD 0) 0
              if 0x80000000 <= code then throw .hugeCode
              if 0x110000 <= code then throw .codeOutOfRange
              return ([code], c.skip length)
      | none =>
          if isBreak ch then
            let (breaks, c) ← quotedBreaks start fuel c.lineBreak.2
            return (Codes.ofChars breaks, c)
          c.failIn .doubleQuoted start (.unknownEscape ch)

def scanQuotedCodes (double : Bool) (start : Mark) :
    Nat → Cursor → Except Fault (Codes × Cursor)
  | 0, c => c.failIn .quotedScalar start .endOfStream
  | fuel + 1, c => do
      let ch := c.peek
      if !double && ch == '\'' && c.peekAt 1 == '\'' then
        let (codes, c) ← scanQuotedCodes double start fuel (c.skip 2)
        return (ch.toNat :: codes, c)
      if ch == (if double then '"' else '\'') then return ([], c.next)
      let (piece, c) ← (show Except Fault (Codes × Cursor) from
        if double && ch == '\\' then scanEscape fuel start c.next
        else if isSpaceOrEnd ch then do
          let (spaces, c) ← quotedSpaces fuel start c
          return (Codes.ofChars spaces, c)
        else return ([ch.toNat], c.next))
      let (codes, c) ← scanQuotedCodes double start fuel c
      return (piece ++ codes, c)

def scanQuoted (fuel : Nat) (double : Bool) (c : Cursor) :
    Except Fault (ScalarText × Cursor) := do
  let (codes, behind) ← scanQuotedCodes double c.mark fuel c.next
  return (⟨codes, false⟩, behind)

/-! ## Block scalars -/

/-- What becomes of the line breaks at the end of a block scalar. -/
inductive Chomping where
  | strip
  | clip
  | keep
  deriving DecidableEq, Repr

def Chomping.ofSign (c : Char) : Chomping :=
  if c == '+' then .keep else if c == '-' then .strip else .clip

def scanIndentationDigit (start : Mark) (c : Cursor) :
    Except Fault (Option Nat × Cursor) := do
  if c.peek == '0' then c.failIn .blockScalar start .zeroIndentation
  if c.peek.isDigit then return (some (c.peek.toNat - '0'.toNat), c.next)
  return (none, c)

def scanBlockHeader (start : Mark) (c : Cursor) :
    Except Fault ((Chomping × Option Nat) × Cursor) := do
  let isSign (ch : Char) : Bool := ch == '+' || ch == '-'
  let (header, c) ← (show Except Fault ((Chomping × Option Nat) × Cursor) from
    if isSign c.peek then do
      let chomping := Chomping.ofSign c.peek
      let (indentation, c) ← scanIndentationDigit start c.next
      return ((chomping, indentation), c)
    else do
      let (indentation, c) ← scanIndentationDigit start c
      if indentation.isSome && isSign c.peek then
        return ((Chomping.ofSign c.peek, indentation), c.next)
      return ((.clip, indentation), c))
  unless isBlankOrEnd c.peek do
    c.failIn .blockScalar start (.expectedIndicator c.peek)
  return (header, c)

def scanHeaderEnd (start : Mark) (c : Cursor) : Except Fault Cursor := do
  let c := c.skipBlanks
  let c := if c.peek == '#' then c.skipWhile (fun ch => !isBreakOrEnd ch) else c
  unless isBreakOrEnd c.peek do
    c.failIn .blockScalar start (.expectedCommentOrBreak c.peek)
  return c.lineBreak.2

/-- Empty lines at the head of a block scalar without an indentation digit: their breaks, the
widest column of blanks, and the mark behind the last break. -/
def detectIndentation : Nat → Nat → Mark → Cursor → List Char × Nat × Mark × Cursor
  | 0, widest, stop, c => ([], widest, stop, c)
  | fuel + 1, widest, stop, c =>
      if c.peek == ' ' then
        let c := c.next
        detectIndentation fuel (max widest c.mark.column) stop c
      else if isBreak c.peek then
        let (br, c) := c.lineBreak
        let (brs, widest, stop, c) := detectIndentation fuel widest c.mark c
        (br ++ brs, widest, stop, c)
      else ([], widest, stop, c)

def skipIndent (indent : Nat) (c : Cursor) : Cursor :=
  c.skip (min (indent - c.mark.column) (c.takeWhile (· == ' ')).1.length)

/-- Empty lines within a block scalar: their breaks and the mark behind the last. -/
def blockBreaks (indent : Nat) : Nat → Mark → Cursor → List Char × Mark × Cursor
  | 0, stop, c => ([], stop, c)
  | fuel + 1, stop, c =>
      let c := skipIndent indent c
      if isBreak c.peek then
        let (br, c) := c.lineBreak
        let (brs, stop, c) := blockBreaks indent fuel c.mark c
        (br ++ brs, stop, c)
      else ([], stop, c)

/-- What is known after reading some lines of a block scalar: the text before the last line
break, that break, the empty lines after it, and the places behind them. -/
structure BlockScan where
  text : List Char
  lineBreak : List Char
  breaks : List Char
  stop : Mark
  behind : Cursor

def blockSeparator (folded leadingText nextIsText : Bool) (lineBreak breaks : List Char) :
    List Char :=
  if folded && lineBreak == ['\n'] && leadingText && nextIsText then
    (if breaks.isEmpty then [' '] else []) ++ breaks
  else lineBreak ++ breaks

def scanBlockLines (folded : Bool) (indent : Nat) : Nat → BlockScan → BlockScan
  | 0, scan => scan
  | fuel + 1, scan =>
      let c := scan.behind
      let isText (ch : Char) : Bool := !(ch == ' ' || ch == '\t')
      let leadingText := isText c.peek
      let (line, c) := c.takeWhile fun ch => !isBreakOrEnd ch
      let (lineBreak, c) := c.lineBreak
      let (breaks, stop, c) := blockBreaks indent fuel c.mark c
      let text := scan.text ++ line
      if c.mark.column == indent && c.peek != endMark then
        scanBlockLines folded indent fuel
          ⟨text ++ blockSeparator folded leadingText (isText c.peek) lineBreak breaks, [], [],
            stop, c⟩
      else ⟨text, lineBreak, breaks, stop, c⟩

/-- A block scalar from its indicator on, with the mark at its end; `indent` is that of the
enclosing block. -/
def scanBlockScalar (fuel : Nat) (folded : Bool) (indent : Int) (c : Cursor) :
    Except Fault ((ScalarText × Mark) × Cursor) := do
  let start := c.mark
  let ((chomping, digit), c) ← scanBlockHeader start c.next
  let c ← scanHeaderEnd start c
  let least := (max (indent + 1) 1).toNat
  let (indent, breaks, stop, c) :=
    match digit with
    | none =>
        let (breaks, widest, stop, c) := detectIndentation fuel 0 c.mark c
        (max least widest, breaks, stop, c)
    | some digit =>
        let indent := least + digit - 1
        let (breaks, stop, c) := blockBreaks indent fuel c.mark c
        (indent, breaks, stop, c)
  let scan :=
    if c.mark.column == indent && c.peek != endMark then
      scanBlockLines folded indent fuel ⟨breaks, [], [], stop, c⟩
    else ⟨[], [], breaks, stop, c⟩
  let tail :=
    match chomping with
    | .strip => []
    | .clip => scan.lineBreak
    | .keep => scan.lineBreak ++ scan.breaks
  return ((⟨Codes.ofChars (scan.text ++ tail), false⟩, scan.stop), scan.behind)

end Yaml
end TextMate
