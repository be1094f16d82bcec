import TextMate.Value.Same
import TextMate.Decimal.Numeral
import TextMate.Text.Utf8

/-!
# Reading JSON

A document is read strictly from left to right; the first character that does
not fit decides the failure and its place.  Numbers without fraction and power
of ten are whole.  The undefined number and both infinities have names of their
own.  A name that occurs twice in an object keeps its first place and its last
value.
-/

namespace TextMate
namespace Json

open Decimal

inductive Fault where
  | byteOrderMark
  | value
  | name
  | colon
  | comma
  | extraData
  | controlCharacter
  | unterminated
  | escape
  | codeEscape
  deriving DecidableEq, Repr

def Fault.message : Fault → String
  | .byteOrderMark => "Unexpected UTF-8 BOM (decode using utf-8-sig)"
  | .value => "Expecting value"
  | .name => "Expecting property name enclosed in double quotes"
  | .colon => "Expecting ':' delimiter"
  | .comma => "Expecting ',' delimiter"
  | .extraData => "Extra data"
  | .controlCharacter => "Invalid control character at"
  | .unterminated => "Unterminated string starting at"
  | .escape => "Invalid \\escape"
  | .codeEscape => "Invalid \\uXXXX escape"

inductive ReadError where
  | malformed (fault : Fault) (position : Nat)
  | tooLong (digits : Nat)
  deriving DecidableEq, Repr

/-- What is left to read, and how many characters stand before it. -/
structure Cursor where
  position : Nat
  rest : List Char

namespace Cursor

def next (c : Cursor) : Cursor :=
  ⟨c.position + 1, c.rest.drop 1⟩

def skip (n : Nat) (c : Cursor) : Cursor :=
  ⟨c.position + n, c.rest.drop n⟩

def isBlank (c : Char) : Bool :=
  c == ' ' || c == '\t' || c == '\n' || c == '\r'

def skipBlanks (c : Cursor) : Cursor :=
  c.skip (c.rest.takeWhile isBlank).length

def fail {α : Type} (c : Cursor) (fault : Fault) : Except ReadError α :=
  .error (.malformed fault c.position)

end Cursor

def fourDigits? : List Char → Option Nat
  | a :: b :: c :: d :: _ => do
      let a ← hex? a
      let b ← hex? b
      let c ← hex? c
      let d ← hex? d
      return ((a * 16 + b) * 16 + c) * 16 + d
  | _ => none
where
  /-- The value of a hexadecimal digit. -/
  hex? (c : Char) : Option Nat :=
    if c.toNat < 0x80 then digitValue? c else none

def unescape? (c : Char) : Option Char :=
  if c == '"' || c == '\\' || c == '/' then some c
  else if c == 'b' then some (Char.ofNat 0x08)
  else if c == 'f' then some (Char.ofNat 0x0C)
  else if c == 'n' then some '\n'
  else if c == 'r' then some '\r'
  else if c == 't' then some '\t'
  else none

/-- The code behind the letter of a code escape, and the number of characters it takes.
Two codes that form a pair are read together. -/
def readCode (c : Cursor) : Except ReadError (Nat × Nat) :=
  if (c.rest.drop 4).isEmpty then .error (.malformed .codeEscape (c.position - 1))
  else
    match fourDigits? c.rest with
    | none => .error (.malformed .codeEscape (c.position - 1))
    | some high =>
        if 0xD800 <= high && high < 0xDC00 then
          match c.rest.drop 4 with
          | '\\' :: 'u' :: a :: b :: c' :: d :: _ :: _ =>
              match fourDigits? [a, b, c', d] with
              | none => .error (.malformed .codeEscape (c.position + 5))
              | some low =>
                  if 0xDC00 <= low && low < 0xE000 then
                    .ok (0x10000 + (high - 0xD800) * 0x400 + (low - 0xDC00), 10)
                  else .ok (high, 4)
          | _ => .ok (high, 4)
        else .ok (high, 4)

/-- The codes of the characters up to the closing quote, and the cursor after it. -/
def readCodes (start : Nat) : Nat → Cursor → Except ReadError (List Nat × Cursor)
  | 0, _ => .error (.malformed .unterminated start)
  | fuel + 1, c =>
      match c.rest with
      | [] => .error (.malformed .unterminated start)
      | '"' :: _ => .ok ([], c.next)
      | '\\' :: [] => .error (.malformed .unterminated start)
      | '\\' :: 'u' :: _ => do
          let (code, length) ← readCode (c.skip 2)
          let (codes, c) ← readCodes start fuel (c.skip (2 + length))
          return (code :: codes, c)
      | '\\' :: e :: _ =>
          match unescape? e with
          | none => c.fail .escape
          | some d => do
              let (codes, c) ← readCodes start fuel (c.skip 2)
              return (d.toNat :: codes, c)
      | d :: _ =>
          if d.toNat < 0x20 then c.fail .controlCharacter
          else do
            let (codes, c) ← readCodes start fuel c.next
            return (d.toNat :: codes, c)

def readText (c : Cursor) : Except ReadError (Value × Cursor) := do
  let (codes, c) ← readCodes (c.position - 1) (c.rest.length + 1) c
  return (.ofCodes codes, c)

/-- Splits a number into its whole part, its fraction with the point and its power of ten. -/
def splitNumber (cs : List Char) : Option (List Char × List Char × List Char) :=
  let digits (cs : List Char) := cs.takeWhile Char.isDigit
  let sign := if cs.head? == some '-' then ['-'] else []
  let body := cs.drop sign.length
  let whole :=
    match body with
    | '0' :: _ => ['0']
    | body => digits body
  if whole.isEmpty then none
  else
    let rest := body.drop whole.length
    let fractional :=
      match rest with
      | '.' :: more => if (digits more).isEmpty then [] else '.' :: digits more
      | _ => []
    let rest := rest.drop fractional.length
    let power :=
      match rest with
      | e :: more =>
          if e == 'e' || e == 'E' then
            match more with
            | s :: more' =>
                if (s == '+' || s == '-') && !(digits more').isEmpty then e :: s :: digits more'
                else if (digits more).isEmpty then [] else e :: digits more
            | [] => []
          else []
      | [] => []
    some (sign ++ whole, fractional, power)

def readNumber (c : Cursor) : Except ReadError (Value × Cursor) :=
  match splitNumber c.rest with
  | none => c.fail .value
  | some (whole, fractional, power) =>
      let cs := whole ++ fractional ++ power
      let rest := c.skip cs.length
      if fractional.isEmpty && power.isEmpty then
        match readInt 10 cs with
        | .ok n => .ok (.int n, rest)
        | .error (.tooLong digits) => .error (.tooLong digits)
        | .error .malformed => c.fail .value
      else
        .ok (.float ((readFloat cs).getD .nan), rest)

def words : List (List Char × Value) :=
  [("null".toList, .null), ("true".toList, .bool true), ("false".toList, .bool false),
    ("NaN".toList, .float .nan), ("Infinity".toList, .float (.infinite false)),
    ("-Infinity".toList, .float (.infinite true))]

mutual

def readValue : Nat → Cursor → Except ReadError (Value × Cursor)
  | 0, c => c.fail .value
  | fuel + 1, c =>
      match c.rest with
      | '"' :: _ => readText c.next
      | '\x7b' :: _ =>
          let c := c.next.skipBlanks
          if c.rest.head? == some '\x7d' then .ok (.dict [], c.next)
          else readMembers fuel [] c
      | '[' :: _ =>
          let c := c.next.skipBlanks
          if c.rest.head? == some ']' then .ok (.list [], c.next)
          else readItems fuel [] c
      | _ =>
          match words.find? fun w => w.1.isPrefixOf c.rest with
          | some (word, v) => .ok (v, c.skip word.length)
          | none => readNumber c

def readMembers : Nat → List (Value × Value) → Cursor → Except ReadError (Value × Cursor)
  | 0, _, c => c.fail .name
  | fuel + 1, members, c => do
      unless c.rest.head? == some '"' do c.fail .name
      let (name, c) ← readText c.next
      let c := c.skipBlanks
      unless c.rest.head? == some ':' do c.fail .colon
      let (value, c) ← readValue fuel c.next.skipBlanks
      let members := Value.setEntry members name value
      let c := c.skipBlanks
      if c.rest.head? == some '\x7d' then return (.dict members, c.next)
      unless c.rest.head? == some ',' do c.fail .comma
      readMembers fuel members c.next.skipBlanks

/-- The items of a list, the first of which is at the cursor; those before it stand last
first. -/
def readItems : Nat → List Value → Cursor → Except ReadError (Value × Cursor)
  | 0, _, c => c.fail .value
  | fuel + 1, items, c => do
      let (item, c) ← readValue fuel c
      let c := c.skipBlanks
      if c.rest.head? == some ']' then return (.list (items.reverse ++ [item]), c.next)
      unless c.rest.head? == some ',' do c.fail .comma
      readItems fuel (item :: items) c.next.skipBlanks

end

def readChars (cs : List Char) : Except ReadError Value := do
  if cs.head? == some (Char.ofNat 0xFEFF) then throw (.malformed .byteOrderMark 0)
  let (value, c) ← readValue (cs.length + 1) (Cursor.mk 0 cs).skipBlanks
  let c := c.skipBlanks
  unless c.rest.isEmpty do c.fail .extraData
  return value

def read (s : String) : Except ReadError Value :=
  readChars s.toList

def placeText (s : String) (position : Nat) : String :=
  let before := s.toList.take position
  let line := before.count '\n' + 1
  let column := (before.reverse.takeWhile (· != '\n')).length + 1
  "line " ++ toString line ++ " column " ++ toString column ++ " (char "
    ++ toString position ++ ")"

def ReadError.message (s : String) : ReadError → String
  | .malformed fault position => fault.message ++ ": " ++ placeText s position
  | .tooLong digits => tooLongText digits

end Json
end TextMate
