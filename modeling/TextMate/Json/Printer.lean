import TextMate.Json.Tree
import TextMate.Decimal.Shortest
import TextMate.Text.Quoted

/-!
# Printing documents as JSON

There are two layouts.  The *indented* one gives every member and item a line of
its own, two blanks deeper than its parent, and writes all characters except the
controls as themselves.  The *compact* one stays on one line and writes every
character outside printable basic Latin by its code, as a pair of codes where
one of sixteen bits is not enough.
-/

namespace TextMate
namespace Json

open Text

def shortEscape? (c : Char) : Option Char :=
  if c == '"' then some '"'
  else if c == '\\' then some '\\'
  else if c == '\n' then some 'n'
  else if c == '\r' then some 'r'
  else if c == '\t' then some 't'
  else if c == Char.ofNat 0x0C then some 'f'
  else if c == Char.ofNat 0x08 then some 'b'
  else none

def codeEscape (c : Char) : List Char :=
  let n := c.toNat
  if n < 0x10000 then ['\\', 'u'] ++ hexDigits 4 n
  else
    let m := n - 0x10000
    ['\\', 'u'] ++ hexDigits 4 (0xD800 + m / 0x400)
      ++ ['\\', 'u'] ++ hexDigits 4 (0xDC00 + m % 0x400)

/-- One character of a string literal; `ascii` asks for codes outside basic Latin. -/
def literalChar (ascii : Bool) (c : Char) : List Char :=
  match shortEscape? c with
  | some e => ['\\', e]
  | none =>
      if c.toNat < 0x20 || (ascii && 0x7F <= c.toNat) then codeEscape c else [c]

def literal (ascii : Bool) (s : String) : List Char :=
  '"' :: s.toList.flatMap (literalChar ascii) ++ ['"']

def floatText : Decimal.Binary64 → String
  | .nan => "NaN"
  | .infinite negative => if negative then "-Infinity" else "Infinity"
  | x => x.text

def scalarText (ascii : Bool) : Tree → List Char
  | .null => "null".toList
  | .bool b => (if b then "true" else "false").toList
  | .int n => (toString n).toList
  | .float x => (floatText x).toList
  | .text s => literal ascii s
  | .list _ => ['[', ']']
  | .object _ => ['\x7b', '\x7d']

def newLine (depth : Nat) : List Char :=
  '\n' :: List.replicate (2 * depth) ' '

mutual

def indented (depth : Nat) : Tree → List Char
  | .list (item :: items) =>
      '[' :: newLine (depth + 1) ++ indented (depth + 1) item
        ++ indentedItems (depth + 1) items ++ newLine depth ++ [']']
  | .object ((name, value) :: members) =>
      '\x7b' :: newLine (depth + 1) ++ literal false name ++ [':', ' ']
        ++ indented (depth + 1) value
        ++ indentedMembers (depth + 1) members ++ newLine depth ++ ['\x7d']
  | t => scalarText false t

def indentedItems (depth : Nat) : List Tree → List Char
  | [] => []
  | item :: items =>
      ',' :: newLine depth ++ indented depth item ++ indentedItems depth items

def indentedMembers (depth : Nat) : List (String × Tree) → List Char
  | [] => []
  | (name, value) :: members =>
      ',' :: newLine depth ++ literal false name ++ [':', ' '] ++ indented depth value
        ++ indentedMembers depth members

end

mutual

def compact : Tree → List Char
  | .list (item :: items) => '[' :: compact item ++ compactItems items ++ [']']
  | .object ((name, value) :: members) =>
      '\x7b' :: literal true name ++ [':', ' '] ++ compact value
        ++ compactMembers members ++ ['\x7d']
  | t => scalarText true t

def compactItems : List Tree → List Char
  | [] => []
  | item :: items => ',' :: ' ' :: compact item ++ compactItems items

def compactMembers : List (String × Tree) → List Char
  | [] => []
  | (name, value) :: members =>
      ',' :: ' ' :: literal true name ++ [':', ' '] ++ compact value
        ++ compactMembers members

end

def print (t : Tree) : String :=
  String.ofList (indented 0 t ++ ['\n'])

def printLine (t : Tree) : String :=
  String.ofList (compact t)

end Json
end TextMate
