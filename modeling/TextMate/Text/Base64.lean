/-!
# Base 64

Decoding of bytes written in groups of four characters.  Characters outside the
alphabet are skipped, and padding that completes a group ends the text.  What
remains must not be a part of a group.
-/

namespace TextMate
namespace Text

def sextet? (c : Char) : Option Nat :=
  if 'A' <= c && c <= 'Z' then some (c.toNat - 'A'.toNat)
  else if 'a' <= c && c <= 'z' then some (c.toNat - 'a'.toNat + 26)
  else if c.isDigit then some (c.toNat - '0'.toNat + 52)
  else if c == '+' then some 62
  else if c == '/' then some 63
  else none

/-- Why a text is not the encoding of bytes. -/
inductive Base64Fault where
  | incorrectPadding
  | danglingSextet (characters : Nat)
  deriving DecidableEq, Repr

/-- Decodes from within a group: the place in the group, the bits left over, the number of
padding characters just before, and the number of bytes already read. -/
def decodeGroups : Nat → Nat → Nat → Nat → List Char → Except Base64Fault (List UInt8)
  | place, _, _, count, [] =>
      if place == 0 then .ok []
      else if place == 1 then .error (.danglingSextet (count / 3 * 4 + 1))
      else .error .incorrectPadding
  | place, left, pads, count, c :: rest =>
      if c == '=' then
        if 2 <= place && 4 <= place + pads + 1 then .ok []
        else decodeGroups place left (if 2 <= place then pads + 1 else pads) count rest
      else
        match sextet? c with
        | none => decodeGroups place left pads count rest
        | some bits =>
            if place == 0 then decodeGroups 1 bits 0 count rest
            else
              let (byte, left) :=
                if place == 1 then (left * 4 + bits / 16, bits % 16)
                else if place == 2 then (left * 16 + bits / 4, bits % 4)
                else (left * 64 + bits, 0)
              (decodeGroups ((place + 1) % 4) left 0 (count + 1) rest).map
                fun bytes => UInt8.ofNat byte :: bytes

def decodeBase64 (cs : List Char) : Except Base64Fault (List UInt8) :=
  decodeGroups 0 0 0 0 cs

end Text
end TextMate
