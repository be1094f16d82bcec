import TextMate.Draft.Basic
import TextMate.Decimal.Numeral

/-!
# Checking values of any kind

A value is checked as an object of a given kind.  An object of that kind passes
as it is.  The counts of a summary may also be given as truth values, as whole
floating-point numbers and as texts.  A text is read as it is or, if that fails,
without blanks at its ends, a plus sign, leading zeros, a fraction of zeros and
single underscores.
-/

namespace TextMate
namespace Draft

open Schema

def isNonzeroDigit (c : Char) : Bool :=
  '1' <= c && c <= '9'

/-- The number of a numeral in figures with a minus sign or none, and no zero in front.  It
has at most 4300 characters. -/
def readFigures (cs : List Char) : Except Mismatch Int :=
  let negative := cs.head? == some '-'
  let body := if negative then cs.drop 1 else cs
  let digits := body.takeWhile Char.isDigit
  if digits.isEmpty || (digits.head? == some '0' && 1 < digits.length) then .error .intText
  else if Decimal.maxDigits < cs.length - (body.length - digits.length) then .error .intSize
  else if digits.length < body.length then .error .intText
  else
    let n : Int := Decimal.ofDigits 10 (digits.map fun c => c.toNat - '0'.toNat)
    .ok (if negative then -n else n)

/-- The text behind leading zeros, the last of which is given: from the first digit or minus
sign on, or with the last zero if a point or nothing follows.  Underscores count as zeros. -/
def behindZeros (last : Char) : List Char → Option (List Char)
  | [] => some [last]
  | c :: rest =>
      if c == '0' || c == '_' then behindZeros c rest
      else if isNonzeroDigit c || c == '-' then some (c :: rest)
      else if c == '.' then some (last :: c :: rest)
      else none

/-- The text without leading zeros; nothing where it cannot be a number. -/
def dropLeadingZeros : List Char → Option (List Char)
  | [] => none
  | c :: rest =>
      if c == '0' then behindZeros c rest
      else if isNonzeroDigit c || c == '-' then some (c :: rest)
      else none

def dropZeroFraction (cs : List Char) : List Char :=
  match cs.dropWhile (· != '.') with
  | '.' :: '0' :: zeros => if zeros.all (· == '0') then cs.takeWhile (· != '.') else cs
  | _ => cs

def dropUnderscores (cs : List Char) : List Char :=
  if (cs.splitOn '_').any List.isEmpty then cs else cs.filter (· != '_')

/-- The text without all that is not needed in front of a number, behind it and in it; nothing
where it cannot be a number. -/
def tidy (cs : List Char) : Option (List Char) :=
  let dropFront (cs : List Char) : Option (List Char) :=
    (dropLeadingZeros cs).map fun cs => dropUnderscores (dropZeroFraction cs)
  match Text.trim Text.isSpace cs with
  | '+' :: '-' :: _ => none
  | '+' :: cs => dropFront cs
  | cs => dropFront cs

def countOfText (s : String) : Except Mismatch Int :=
  match readFigures s.toList with
  | .error .intText =>
      match tidy s.toList with
      | some cs => readFigures cs
      | none => .error .intText
  | result => result

def checkCount (s : Site) : Verdict Int :=
  match s.value with
  | .int n => .accepted n
  | .bool b => .accepted (if b then 1 else 0)
  | .float x =>
      match x with
      | .nan | .infinite _ => s.reject .finite
      | x =>
          match x.toInt? with
          | none => s.reject .intFraction
          | some n =>
              if -wordBound < n && n < wordBound then .accepted n
              else s.reject .intSize
  | .text t =>
      match countOfText t with
      | .ok n => .accepted n
      | .error mismatch => s.reject mismatch
  | _ => s.reject .int

/-- A summary; entries that are no fields are ignored. -/
def checkSummary (s : Site) : Verdict Value :=
  match given (· == .summary) s.value with
  | some v => .accepted v
  | none =>
      Form.check .summary s fun form =>
        (fun name scope display types patterns entries path =>
          Value.record .summary
            [(.name, .text name), (.scopeName, .text scope), (.displayName, ofOption display),
              (.fileTypes, .list (types.map .text)), (.patternCount, .int patterns),
              (.repositoryCount, .int entries), (.path, ofOption path)])
          <$> form.required .name Site.text
          <*> form.required .scopeName Site.text
          <*> form.optional .displayName Site.text
          <*> form.defaulted .fileTypes [] (Site.list Site.text)
          <*> form.defaulted .patternCount 0 checkCount
          <*> form.defaulted .repositoryCount 0 checkCount
          <*> form.optional .path Site.text

def check (kind : Kind) (v : Value) : Except (List Problem) Value :=
  let s := Site.top v
  let passes (rest : Site → Verdict Value) : Verdict Value :=
    match given (· == kind) s.value with
    | some v => .accepted v
    | none => rest s
  Verdict.toExcept <|
    match kind with
    | .grammar => checkGrammar assembly s
    | .capture => checkCapture assembly s
    | .summary => checkSummary s
    | .matching => passes (checkMatching assembly)
    | .reference => passes (checkReference assembly)
    | .block =>
        passes (checkBlock assembly (checkPattern assembly (maxNesting - 1) s.number.toList))

end Draft
end TextMate
