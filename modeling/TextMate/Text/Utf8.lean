import TextMate.Text.Quoted

/-!
# UTF-8

Encoding of characters as bytes and decoding with the exact place and reason of
the first failure.  A failure names the bytes from the first byte of the faulty
character up to, but not including, the first byte that does not fit; at the end
of the input it names all that is left.
-/

namespace TextMate
namespace Text

def encodeChar (c : Char) : List UInt8 :=
  let n := c.toNat
  if n < 0x80 then [UInt8.ofNat n]
  else if n < 0x800 then [UInt8.ofNat (0xC0 + n / 0x40), UInt8.ofNat (0x80 + n % 0x40)]
  else if n < 0x10000 then
    [UInt8.ofNat (0xE0 + n / 0x1000), UInt8.ofNat (0x80 + n / 0x40 % 0x40),
      UInt8.ofNat (0x80 + n % 0x40)]
  else
    [UInt8.ofNat (0xF0 + n / 0x40000), UInt8.ofNat (0x80 + n / 0x1000 % 0x40),
      UInt8.ofNat (0x80 + n / 0x40 % 0x40), UInt8.ofNat (0x80 + n % 0x40)]

def encodeUtf8 (s : String) : List UInt8 :=
  s.toList.flatMap encodeChar

inductive Utf8Reason where
  | invalidStart
  | invalidContinuation
  | endOfData
  deriving DecidableEq, Repr

def Utf8Reason.message : Utf8Reason → String
  | .invalidStart => "invalid start byte"
  | .invalidContinuation => "invalid continuation byte"
  | .endOfData => "unexpected end of data"

/-- The first bytes that cannot be decoded: where they start, and which they are. -/
structure Utf8Fault where
  position : Nat
  bytes : List UInt8
  reason : Utf8Reason
  deriving DecidableEq, Repr

def Utf8Fault.message (fault : Utf8Fault) : String :=
  let place :=
    match fault.bytes with
    | [byte] =>
        "byte 0x" ++ String.ofList (hexDigits 2 byte.toNat) ++ " in position "
          ++ toString fault.position
    | bytes =>
        "bytes in position " ++ toString fault.position ++ "-"
          ++ toString (fault.position + bytes.length - 1)
  "'utf-8' codec can't decode " ++ place ++ ": " ++ fault.reason.message

/-- Number of bytes after a start byte, and the least and greatest first of them. -/
def continuationShape (start : UInt8) : Option (Nat × Nat × Nat) :=
  let n := start.toNat
  if n < 0x80 then some (0, 0x80, 0xBF)
  else if n < 0xC2 then none
  else if n < 0xE0 then some (1, 0x80, 0xBF)
  else if n == 0xE0 then some (2, 0xA0, 0xBF)
  else if n == 0xED then some (2, 0x80, 0x9F)
  else if n < 0xF0 then some (2, 0x80, 0xBF)
  else if n == 0xF0 then some (3, 0x90, 0xBF)
  else if n < 0xF4 then some (3, 0x80, 0xBF)
  else if n == 0xF4 then some (3, 0x80, 0x8F)
  else none

/-- The code carried by the start byte of a character with so many bytes after it. -/
def startBits (start : UInt8) : Nat → Nat
  | 0 => start.toNat
  | 1 => start.toNat - 0xC0
  | 2 => start.toNat - 0xE0
  | _ => start.toNat - 0xF0

/-- What decoding has read of the current character: the code so far, how many bytes are
still owed, the bounds of the next one, and the bytes read, last first. -/
structure PartialChar where
  code : Nat
  owed : Nat
  low : Nat
  high : Nat
  read : List UInt8

/-- Decodes bytes from the given position on, in the middle of a character or between two. -/
def decodeFrom : Nat → Option PartialChar → List UInt8 → Except Utf8Fault (List Char)
  | _, none, [] => .ok []
  | position, some pending, [] =>
      .error ⟨position - pending.read.length, pending.read.reverse, .endOfData⟩
  | position, none, byte :: rest =>
      match continuationShape byte with
      | none => .error ⟨position, [byte], .invalidStart⟩
      | some (0, _, _) => do
          let cs ← decodeFrom (position + 1) none rest
          return Char.ofNat byte.toNat :: cs
      | some (owed, low, high) =>
          decodeFrom (position + 1) (some ⟨startBits byte owed, owed, low, high, [byte]⟩) rest
  | position, some pending, byte :: rest =>
      if pending.low <= byte.toNat && byte.toNat <= pending.high then
        let code := pending.code * 0x40 + (byte.toNat - 0x80)
        if pending.owed <= 1 then do
          let cs ← decodeFrom (position + 1) none rest
          return Char.ofNat code :: cs
        else
          decodeFrom (position + 1)
            (some ⟨code, pending.owed - 1, 0x80, 0xBF, byte :: pending.read⟩) rest
      else
        .error ⟨position - pending.read.length, pending.read.reverse, .invalidContinuation⟩

def decodeUtf8 (bytes : List UInt8) : Except Utf8Fault String :=
  (decodeFrom 0 none bytes).map String.ofList

def normalizeLineEnds : List Char → List Char
  | [] => []
  | '\r' :: '\n' :: rest => '\n' :: normalizeLineEnds rest
  | '\r' :: rest => '\n' :: normalizeLineEnds rest
  | c :: rest => c :: normalizeLineEnds rest

end Text
end TextMate
