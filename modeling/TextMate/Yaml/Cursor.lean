import TextMate.Yaml.Error

/-!
# Moving through a text

A cursor is a mark together with the characters that follow it.  Behind the
last character the text is continued by the null character, which no document
may contain, so that looking ahead always gives an answer.
-/

namespace TextMate
namespace Yaml

def endMark : Char := Char.ofNat 0

def isBreakOrEnd (c : Char) : Bool :=
  isBreak c || c == endMark

def isBlankOrEnd (c : Char) : Bool :=
  c == ' ' || isBreakOrEnd c

def isSpaceOrEnd (c : Char) : Bool :=
  c == '\t' || isBlankOrEnd c

def isNameChar (c : Char) : Bool :=
  (c.isAlphanum && c.toNat < 0x80) || c == '-' || c == '_'

structure Cursor where
  mark : Mark
  rest : List Char
  deriving Inhabited

namespace Cursor

def ofText (cs : List Char) : Cursor :=
  ⟨⟨0, 0, 0⟩, cs⟩

def peek (c : Cursor) : Char :=
  c.rest.headD endMark

def peekAt (c : Cursor) (n : Nat) : Char :=
  c.rest.getD n endMark

/-- The cursor behind the next character.  A line ends at its break, a carriage return
before a line feed being part of it, and a byte order mark takes no column. -/
def next (c : Cursor) : Cursor :=
  match c.rest with
  | [] => c
  | ch :: rest =>
      let ends := isBreak ch && !(ch == '\r' && rest.head? == some '\n')
      let mark : Mark :=
        if ends then ⟨c.mark.index + 1, c.mark.line + 1, 0⟩
        else
          ⟨c.mark.index + 1, c.mark.line,
            if ch.toNat == 0xFEFF then c.mark.column else c.mark.column + 1⟩
      ⟨mark, rest⟩

def skip : Nat → Cursor → Cursor
  | 0, c => c
  | n + 1, c => skip n c.next

def takeWhile (p : Char → Bool) (c : Cursor) : List Char × Cursor :=
  let cs := c.rest.takeWhile p
  (cs, c.skip cs.length)

def skipWhile (p : Char → Bool) (c : Cursor) : Cursor :=
  (c.takeWhile p).2

def skipBlanks (c : Cursor) : Cursor :=
  c.skipWhile (· == ' ')

/-- Reads the end of a line, if there is one: a line feed for all kinds but the line and
paragraph separators, which stand for themselves. -/
def lineBreak (c : Cursor) : List Char × Cursor :=
  let ch := c.peek
  if ch == '\r' && c.peekAt 1 == '\n' then (['\n'], c.skip 2)
  else if ch == '\r' || ch == '\n' || ch.toNat == 0x85 then (['\n'], c.next)
  else if isBreak ch then ([ch], c.next)
  else ([], c)

/-- Whether three characters and a space, or the end, mark the border of a document. -/
def atMarker (marker : Char) (c : Cursor) : Bool :=
  c.peek == marker && c.peekAt 1 == marker && c.peekAt 2 == marker && isSpaceOrEnd (c.peekAt 3)

def atDocumentBorder (c : Cursor) : Bool :=
  c.atMarker '-' || c.atMarker '.'

def failIn {α : Type} (c : Cursor) (context : Context) (start : Mark) (problem : Problem) :
    Except Fault α :=
  .error (.flaw ⟨some context, some start, problem, c.mark⟩)

def fail {α : Type} (c : Cursor) (problem : Problem) : Except Fault α :=
  .error (.flaw ⟨none, none, problem, c.mark⟩)

end Cursor

end Yaml
end TextMate
