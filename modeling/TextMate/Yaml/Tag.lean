import TextMate.Yaml.Timestamp

/-!
# Tags

A tag names the type of a node.  A scalar without a tag has the type that its
text looks like: a truth value, a number, a timestamp, nothing, the sign for
merging or for a default value, or else a text.
-/

namespace TextMate
namespace Yaml

inductive Tag where
  | null
  | bool
  | int
  | float
  | binary
  | timestamp
  | text
  | merge
  | default
  | indicator
  | sequence
  | mapping
  | set
  | orderedMap
  | pairs
  | other (name : String)
  deriving DecidableEq, Repr, Inhabited

namespace Tag

def common : String := "tag:yaml.org,2002:"

def named : List (String × Tag) :=
  [("null", null), ("bool", bool), ("int", int), ("float", float), ("binary", binary),
    ("timestamp", timestamp), ("str", text), ("merge", merge), ("value", default),
    ("yaml", indicator), ("seq", sequence), ("map", mapping), ("set", set),
    ("omap", orderedMap), ("pairs", pairs)]

def name : Tag → String
  | other name => name
  | tag => common ++ ((named.find? fun entry => entry.2 == tag).map (·.1)).getD ""

def ofName (full : String) : Tag :=
  match named.find? fun entry => common ++ entry.1 == full with
  | some entry => entry.2
  | none => other full

/-! ## What a text looks like -/

def isDigitOrUnderscore (c : Char) : Bool :=
  c.isDigit || c == '_'

def unsigned : List Char → List Char
  | '-' :: rest => rest
  | '+' :: rest => rest
  | cs => cs

def colonParts (cs : List Char) : List (List Char) :=
  cs.splitOn ':'

def isSixtieth : List Char → Bool
  | [a] => a.isDigit
  | [a, b] => '0' <= a && a <= '5' && b.isDigit
  | _ => false

def isRun (p : Char → Bool) (cs : List Char) : Bool :=
  !cs.isEmpty && cs.all p

def startsDigits (p : Char → Bool) : List Char → Bool
  | [] => false
  | d :: rest => p d && rest.all isDigitOrUnderscore

def isNonzeroDigit (c : Char) : Bool :=
  c.isDigit && c != '0'

def isHexOrUnderscore (c : Char) : Bool :=
  c.isDigit || ('a' <= c && c <= 'f') || ('A' <= c && c <= 'F') || c == '_'

/-- The look of a whole number: binary, octal, hexadecimal, decimal, or in parts of sixty. -/
def looksInt (cs : List Char) : Bool :=
  let body := unsigned cs
  match body with
  | [] => false
  | ['0'] => true
  | '0' :: 'b' :: rest => isRun (fun c => c == '0' || c == '1' || c == '_') rest
  | '0' :: 'x' :: rest => isRun isHexOrUnderscore rest
  | '0' :: rest => isRun (fun c => ('0' <= c && c <= '7') || c == '_') rest
  | body =>
      match colonParts body with
      | first :: rest => startsDigits isNonzeroDigit first && rest.all isSixtieth
      | [] => false

def isPower : List Char → Bool
  | [] => true
  | e :: sign :: digits =>
      (e == 'e' || e == 'E') && (sign == '-' || sign == '+') && isRun Char.isDigit digits
  | _ => false

def isFraction (cs : List Char) : Bool :=
  isPower (cs.dropWhile isDigitOrUnderscore)

def looksFloat (cs : List Char) : Bool :=
  let body := unsigned cs
  if [".inf".toList, ".Inf".toList, ".INF".toList].contains body then true
  else if [".nan".toList, ".NaN".toList, ".NAN".toList].contains cs then true
  else
    match cs with
    | '.' :: d :: rest => d.isDigit && isFraction rest
    | _ =>
        let whole := body.takeWhile (· != '.')
        match body.dropWhile (· != '.') with
        | '.' :: rest =>
            match colonParts whole with
            | [digits] => startsDigits Char.isDigit digits && isFraction rest
            | digits :: parts =>
                startsDigits Char.isDigit digits && parts.all isSixtieth
                  && rest.all isDigitOrUnderscore
            | [] => false
        | _ => false

/-- The look of a date or moment; a date alone needs all its digits. -/
def looksTimestamp (cs : List Char) : Bool :=
  match TimestampParts.read cs with
  | some parts => parts.time.isSome || parts.fullWidth
  | none => false

def boolWords : List String :=
  ["yes", "Yes", "YES", "no", "No", "NO", "true", "True", "TRUE", "false", "False", "FALSE",
    "on", "On", "ON", "off", "Off", "OFF"]

def ofLine (cs : List Char) : Tag :=
  let s := String.ofList cs
  if boolWords.contains s then bool
  else if looksFloat cs then float
  else if looksInt cs then int
  else if s == "<<" then merge
  else if ["", "~", "null", "Null", "NULL"].contains s then null
  else if looksTimestamp cs then timestamp
  else if s == "=" then default
  else if ["!", "&", "*"].contains s then indicator
  else text

/-- The type that a text looks like.  One line feed at the end is overlooked, but a text of
nothing else is a text. -/
def ofText (s : String) : Tag :=
  let cs := s.toList
  if cs == ['\n'] then text
  else if cs.getLast? == some '\n' then ofLine cs.dropLast
  else ofLine cs

end Tag
end Yaml
end TextMate
