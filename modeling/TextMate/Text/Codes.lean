import TextMate.Text.Lowercase
import TextMate.Text.Quoted

/-!
# Texts with halves of pairs

Escapes can spell half of a pair, a code that is no character.  What they spell
is then a list of codes and not a text.  Such a list can still be quoted and put
in lower case, and where it has to be shown as a text, replacement characters
stand for its halves.  Lists that differ in halves only are shown alike.
-/

namespace TextMate
namespace Text

abbrev Codes := List Nat

def isHalf (code : Nat) : Bool :=
  0xD800 <= code && code < 0xE000

theorem isHalf_toNat (c : Char) : isHalf c.toNat = false := by
  have h := c.valid
  simp only [isHalf, Char.toNat, UInt32.isValidChar, Nat.isValidChar] at *
  grind

theorem toNat_lt (c : Char) : c.toNat < 0x110000 := by
  have h := c.valid
  simp only [Char.toNat, UInt32.isValidChar, Nat.isValidChar] at *
  omega

namespace Codes

def ofChars (cs : List Char) : Codes :=
  cs.map Char.toNat

def chars (codes : Codes) : List Char :=
  codes.map Char.ofNat

def text? (codes : Codes) : Option String :=
  if codes.any isHalf then none else some (String.ofList codes.chars)

@[simp]
theorem chars_ofChars (cs : List Char) : chars (ofChars cs) = cs := by
  simp [chars, ofChars, Function.comp_def]

@[simp]
theorem text?_ofChars (cs : List Char) : (ofChars cs).text? = some (String.ofList cs) := by
  have h : (ofChars cs).any isHalf = false := by
    simp [ofChars, isHalf_toNat]
  simp [text?, h]

def quoteCode (mark : Char) (code : Nat) : List Char :=
  if isHalf code then ['\\', 'u'] ++ hexDigits 4 code else quoteChar mark (Char.ofNat code)

def quoted (codes : Codes) : String :=
  let mark := quoteMark codes.chars
  String.ofList (mark :: codes.flatMap (quoteCode mark) ++ [mark])

/-- Applies a function to the runs of characters between halves.  The first argument is the
run so far, last character first. -/
def mapRuns (f : List Char → List Char) : List Char → Codes → Codes
  | run, [] => ofChars (f run.reverse)
  | run, code :: rest =>
      if isHalf code then ofChars (f run.reverse) ++ code :: mapRuns f [] rest
      else mapRuns f (Char.ofNat code :: run) rest

/-- The lower case of the codes.  A half is no part of a word. -/
def lowercase (codes : Codes) : Codes :=
  mapRuns (lowercaseFrom false) [] codes

/-- The codes as a text, three replacement characters for a half: one for each of the bytes
that it would take. -/
def shown (codes : Codes) : String :=
  let replacement := Char.ofNat 0xFFFD
  String.ofList <| codes.flatMap fun code =>
    if isHalf code then [replacement, replacement, replacement] else [Char.ofNat code]

end Codes
end Text
end TextMate
