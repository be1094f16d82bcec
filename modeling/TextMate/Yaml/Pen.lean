import TextMate.Yaml.Style
import TextMate.Text.Quoted

/-!
# Writing on lines

A pen knows the column it has reached and what stands before it on the line: only
indentation and signs, and whether the last thing written was white space.
Scalars are folded: a blank beyond the eightieth column becomes the end of a line
where the text can be continued on the next one.
-/

namespace TextMate
namespace Yaml

def bestWidth : Nat := 80

/-- What has been written, last character first, and the state of the line. -/
structure Pen where
  written : List Char
  column : Nat
  afterSpace : Bool
  inIndent : Bool

namespace Pen

def blank : Pen :=
  ⟨[], 0, true, true⟩

def put (p : Pen) (cs : List Char) : Pen :=
  { p with written := cs.reverse ++ p.written, column := p.column + cs.length }

def breakWith (p : Pen) (c : Char) : Pen :=
  ⟨c :: p.written, 0, true, true⟩

def newLine (p : Pen) : Pen :=
  p.breakWith '\n'

/-- Goes to the indentation of a line, a new one unless nothing else stands on this one. -/
def indentTo (p : Pen) (indent : Nat) : Pen :=
  let p :=
    if !p.inIndent || indent < p.column || (p.column == indent && !p.afterSpace) then p.newLine
    else p
  if p.column < indent then
    { p.put (List.replicate (indent - p.column) ' ') with afterSpace := true }
  else p

/-- Writes a sign, behind a blank if one is needed; some signs count as indentation. -/
def sign (p : Pen) (cs : List Char) (needsSpace counts : Bool) : Pen :=
  let p' := p.put (if p.afterSpace || !needsSpace then cs else ' ' :: cs)
  { p' with afterSpace := false, inIndent := p.inIndent && counts }

def inScalar (p : Pen) : Pen :=
  { p with afterSpace := false, inIndent := false }

def runs {κ : Type} [DecidableEq κ] (key : Char → κ) : List Char → List (κ × List Char)
  | [] => []
  | c :: rest =>
      match runs key rest with
      | (k, run) :: more =>
          if key c = k then (k, c :: run) :: more else (key c, [c]) :: (k, run) :: more
      | [] => [(key c, [c])]

/-- The kinds of characters at which scalars are folded. -/
inductive Piece where
  | word
  | blanks
  | breaks
  deriving DecidableEq

def Piece.of (c : Char) : Piece :=
  if c == ' ' then .blanks else if isKeptBreak c then .breaks else .word

def plainPieces (split : Bool) (indent : Nat) : List (Piece × List Char) → Pen → Pen
  | [], p => p
  | (kind, run) :: rest, p =>
      let p :=
        if kind == .blanks && run.length == 1 && split && bestWidth < p.column then
          (p.indentTo indent).inScalar
        else p.put run
      plainPieces split indent rest p

def plain (p : Pen) (split : Bool) (indent : Nat) (cs : List Char) : Pen :=
  if cs.isEmpty then p
  else
    let p := if p.afterSpace then p else p.put [' ']
    plainPieces split indent (runs Piece.of cs) p.inScalar

/-- Writes line breaks within single quotes: a line feed is written twice if it comes
first. -/
def quotedBreaks (p : Pen) (indent : Nat) (run : List Char) : Pen :=
  let p := if run.head? == some '\n' then p.newLine else p
  (run.foldl breakWith p).indentTo indent

/-- Writes the pieces of a scalar between single quotes; `isFirst` tells whether nothing stands
before them. -/
def singlePieces (split : Bool) (indent : Nat) :
    Bool → List (Piece × List Char) → Pen → Pen
  | _, [], p => p
  | isFirst, (kind, run) :: rest, p =>
      let p :=
        match kind with
        | .breaks => p.quotedBreaks indent run
        | .blanks =>
            if run.length == 1 && split && bestWidth < p.column && !isFirst && !rest.isEmpty then
              p.indentTo indent
            else p.put run
        | .word => p.put (run.flatMap fun c => if c == '\'' then ['\'', '\''] else [c])
      singlePieces split indent false rest p

def single (p : Pen) (split : Bool) (indent : Nat) (cs : List Char) : Pen :=
  (singlePieces split indent true (runs Piece.of cs) (p.sign ['\''] true false)).sign
    ['\''] false false

def isLiteral (c : Char) : Bool :=
  let n := c.toNat
  !(c == '"' || c == '\\' || n == 0xFEFF || n == 0x2028 || n == 0x2029)
    && ((0x20 <= n && n <= 0x7E) || (0xA0 <= n && n <= 0xD7FF) || (0xE000 <= n && n <= 0xFFFD))

def escapeLetter? (c : Char) : Option Char :=
  let n := c.toNat
  if c == '"' || c == '\\' then some c
  else if n == 0x00 then some '0'
  else if n == 0x07 then some 'a'
  else if n == 0x08 then some 'b'
  else if n == 0x09 then some 't'
  else if n == 0x0A then some 'n'
  else if n == 0x0B then some 'v'
  else if n == 0x0C then some 'f'
  else if n == 0x0D then some 'r'
  else if n == 0x1B then some 'e'
  else if n == 0x85 then some 'N'
  else if n == 0xA0 then some '_'
  else if n == 0x2028 then some 'L'
  else if n == 0x2029 then some 'P'
  else none

def escape (c : Char) : List Char :=
  match escapeLetter? c with
  | some letter => ['\\', letter]
  | none =>
      let digits (width : Nat) : List Char := (Text.hexDigits width c.toNat).map Char.toUpper
      if c.toNat <= 0xFF then ['\\', 'x'] ++ digits 2
      else if c.toNat <= 0xFFFF then ['\\', 'u'] ++ digits 4
      else ['\\', 'U'] ++ digits 8

/-- Ends a line within double quotes, before a character that is still to be written. -/
def doubleFold (p : Pen) (indent : Nat) (pending : List Char) (next : Char) : Pen :=
  let p := ((p.put ('\\' :: pending).reverse).indentTo indent).inScalar
  if next == ' ' then p.put ['\\'] else p

/-- Writes the characters of a scalar between double quotes.  `pending` are those that have been
passed but not written yet, the latest first; `isFirst` tells whether none has been passed. -/
def doubleChars (split : Bool) (indent : Nat) :
    Bool → List Char → List Char → Pen → Pen
  | _, pending, [], p => p.put pending.reverse
  | isFirst, pending, c :: rest, p =>
      let folds := split && !isFirst && !rest.isEmpty
      if isLiteral c then
        if folds && (c == ' ' || pending.isEmpty) && bestWidth < p.column + pending.length then
          doubleChars split indent false [c] rest (p.doubleFold indent pending c)
        else doubleChars split indent false (c :: pending) rest p
      else
        let p := (p.put pending.reverse).put (escape c)
        if folds && bestWidth + 1 < p.column then
          doubleChars split indent false [] rest (p.doubleFold indent [] (rest.headD 'x'))
        else doubleChars split indent false [] rest p

def double (p : Pen) (split : Bool) (indent : Nat) (cs : List Char) : Pen :=
  (doubleChars split indent true [] cs (p.sign ['"'] true false)).sign ['"'] false false

def text (p : Pen) : String :=
  String.ofList p.written.reverse

end Pen
end Yaml
end TextMate
