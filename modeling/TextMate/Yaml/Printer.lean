import TextMate.Yaml.Pen
import TextMate.Json.Tree
import TextMate.Decimal.Shortest

/-!
# Printing documents as YAML

Collections are laid out in blocks, two columns deeper than what holds them; the
items of a sequence that is the value of a key stand in the column of the key.
Empty collections stand between brackets.  A key that is empty, long, has several
lines, or is a collection itself is announced by a question mark.
-/

namespace TextMate
namespace Yaml

/-- A document with keys of any kind.  A scalar has a type and a text. -/
inductive Outline where
  | scalar (tag : Tag) (text : String)
  | sequence (items : List Outline)
  | mapping (entries : List (Outline × Outline))
  deriving Inhabited, Repr

namespace Outline

def floatText (x : Decimal.Binary64) : String :=
  match x with
  | .nan => ".nan"
  | .infinite negative => if negative then "-.inf" else ".inf"
  | x =>
      let cs := x.text.toList
      if cs.contains '.' then x.text
      else
        String.ofList
          (cs.takeWhile (· != 'e') ++ (if cs.contains 'e' then ['.', '0'] else [])
            ++ cs.dropWhile (· != 'e'))

def null : Outline := scalar .null "null"

def bool (b : Bool) : Outline := scalar .bool (if b then "true" else "false")

def int (n : Int) : Outline := scalar .int (toString n)

def float (x : Decimal.Binary64) : Outline := scalar .float (floatText x)

def text (s : String) : Outline := scalar .text s

mutual

def ofTree : Tree → Outline
  | .null => null
  | .bool b => bool b
  | .int n => int n
  | .float x => float x
  | .text s => text s
  | .list items => sequence (ofItems items)
  | .object members => mapping (ofMembers members)

def ofItems : List Tree → List Outline
  | [] => []
  | item :: items => ofTree item :: ofItems items

def ofMembers : List (String × Tree) → List (Outline × Outline)
  | [] => []
  | (name, value) :: members => (text name, ofTree value) :: ofMembers members

end

/-- The indentation of a collection or scalar inside one with the given indentation. -/
def deeper (indent : Option Nat) (start : Nat) : Nat :=
  match indent with
  | none => start
  | some n => n + 2

def tagLength (tag : Tag) : Nat :=
  2 + (tag.name.length - Tag.common.length)

def isSimpleKey : Outline → Bool
  | scalar tag text =>
      tagLength tag + text.length < 128 && !text.isEmpty && !Style.isMultiline text.toList
  | sequence items => items.isEmpty
  | mapping entries => entries.isEmpty

def writeScalar (indent : Option Nat) (isKey : Bool) (tag : Tag) (text : String) (p : Pen) : Pen :=
  let column := deeper indent 2
  let split := !isKey
  match Style.choose tag text isKey with
  | .plain => p.plain split column text.toList
  | .single => p.single split column text.toList
  | .double => p.double split column text.toList

mutual

/-- Writes a document inside a collection with the given indentation.  `isValue` tells whether
it belongs to an entry of a mapping, `isKey` whether it stands in front of a colon. -/
def write (indent : Option Nat) (isValue isKey : Bool) : Outline → Pen → Pen
  | scalar tag text, p => writeScalar indent isKey tag text p
  | sequence items, p =>
      if items.isEmpty then (p.sign ['['] true false).sign [']'] false false
      else
        let column :=
          if isValue && !p.inIndent then indent.getD 0 else deeper indent 0
        writeItems column items p
  | mapping entries, p =>
      if entries.isEmpty then (p.sign ['\x7b'] true false).sign ['\x7d'] false false
      else writeEntries (deeper indent 0) entries p

def writeItems (column : Nat) : List Outline → Pen → Pen
  | [], p => p
  | item :: items, p =>
      let p := (p.indentTo column).sign ['-'] true true
      writeItems column items (write (some column) false false item p)

def writeEntries (column : Nat) : List (Outline × Outline) → Pen → Pen
  | [], p => p
  | (key, value) :: entries, p =>
      let p := p.indentTo column
      let p :=
        if key.isSimpleKey then
          (write (some column) true true key p).sign [':'] false false
        else
          let p := write (some column) true false key (p.sign ['?'] true true)
          (p.indentTo column).sign [':'] true true
      writeEntries column entries (write (some column) true false value p)

end

def print (o : Outline) : String :=
  ((write none false false o Pen.blank).indentTo 0).text

end Outline

def print (t : Tree) : String :=
  (Outline.ofTree t).print

end Yaml
end TextMate
