import TextMate.Yaml.Mark
import TextMate.Calendar
import TextMate.Decimal.Numeral
import TextMate.Text.Codes
import TextMate.Text.Utf8

/-!
# What can be wrong with a document

A *flaw* is a place where a text stops being a document.  It names what was
being read and where that started, then what did not fit and where.  A *fault*
is a flaw, a character that no document may contain, or a scalar whose text
does not denote a value of its type.
-/

namespace TextMate
namespace Yaml

open Text

/-- What was being read when a flaw was met. -/
inductive Context where
  | nextToken
  | simpleKey
  | directive
  | directiveParsing
  | alias
  | anchor
  | tag
  | tagParsing
  | blockScalar
  | doubleQuoted
  | quotedScalar
  | node
  | blockNode
  | flowNode
  | blockCollection
  | blockMapping
  | flowSequence
  | flowMapping
  | firstAnchor (name : String)
  | singleDocument
  | mapping
  | orderedMap
  | pairs
  deriving DecidableEq, Repr

def Context.message : Context → String
  | .nextToken => "while scanning for the next token"
  | .simpleKey => "while scanning a simple key"
  | .directive => "while scanning a directive"
  | .directiveParsing => "while parsing a directive"
  | .alias => "while scanning an alias"
  | .anchor => "while scanning an anchor"
  | .tag => "while scanning a tag"
  | .tagParsing => "while parsing a tag"
  | .blockScalar => "while scanning a block scalar"
  | .doubleQuoted => "while scanning a double-quoted scalar"
  | .quotedScalar => "while scanning a quoted scalar"
  | .node => "while parsing a node"
  | .blockNode => "while parsing a block node"
  | .flowNode => "while parsing a flow node"
  | .blockCollection => "while parsing a block collection"
  | .blockMapping => "while parsing a block mapping"
  | .flowSequence => "while parsing a flow sequence"
  | .flowMapping => "while parsing a flow mapping"
  | .firstAnchor name => "found duplicate anchor " ++ quoted name ++ "; first occurrence"
  | .singleDocument => "expected a single document in the stream"
  | .mapping => "while constructing a mapping"
  | .orderedMap => "while constructing an ordered map"
  | .pairs => "while constructing pairs"

inductive Problem where
  | noToken (found : Char)
  | noColon
  | noSequenceEntry
  | noMappingKey
  | noMappingValue
  | expectedName (found : Char)
  | expectedDigit (found : Char)
  | expectedDigitOrDot (found : Char)
  | expectedDigitOrBlank (found : Char)
  | expectedBlank (found : Char)
  | expectedCommentOrBreak (found : Char)
  | expectedExclamation (found : Char)
  | expectedAngle (found : Char)
  | expectedUri (found : Char)
  | expectedUriEscape (found : Char)
  | undecodableUri (fault : Utf8Fault)
  | zeroIndentation
  | expectedIndicator (found : Char)
  | expectedHex (digits : Nat) (found : Char)
  | unknownEscape (found : Char)
  | endOfStream
  | documentSeparator
  | duplicateVersion
  | incompatibleVersion
  | duplicateHandle (handle : String)
  | undefinedHandle (handle : String)
  | expectedDocumentStart (found : String)
  | expectedContent (found : String)
  | expectedBlockEnd (found : String)
  | expectedCommaOrBracket (found : String)
  | expectedCommaOrBrace (found : String)
  | undefinedAlias (name : String)
  | secondAnchor
  | secondDocument
  | unhashableKey
  | expectedMergeable (found : String)
  | expectedMergeableItem (found : String)
  | unknownTag (tag : String)
  | expectedScalar (found : String)
  | expectedSequence (found : String)
  | expectedMapping (found : String)
  | expectedEntries (found : String)
  | expectedSingleton (found : String)
  | expectedSingleItem (found : Nat)
  | notAscii (first last code : Nat)
  | incorrectPadding
  | danglingSextet (characters : Nat)
  deriving DecidableEq, Repr

def codeText (code : Nat) : String :=
  String.ofList <|
    if code < 0x100 then ['\\', 'x'] ++ hexDigits 2 code
    else if code < 0x10000 then ['\\', 'u'] ++ hexDigits 4 code
    else ['\\', 'U'] ++ hexDigits 8 code

def Problem.message : Problem → String
  | .noToken c => "found character " ++ found c ++ " that cannot start any token"
  | .noColon => "could not find expected ':'"
  | .noSequenceEntry => "sequence entries are not allowed here"
  | .noMappingKey => "mapping keys are not allowed here"
  | .noMappingValue => "mapping values are not allowed here"
  | .expectedName c => "expected alphabetic or numeric character, but found " ++ found c
  | .expectedDigit c => "expected a digit, but found " ++ found c
  | .expectedDigitOrDot c => "expected a digit or '.', but found " ++ found c
  | .expectedDigitOrBlank c => "expected a digit or ' ', but found " ++ found c
  | .expectedBlank c => "expected ' ', but found " ++ found c
  | .expectedCommentOrBreak c => "expected a comment or a line break, but found " ++ found c
  | .expectedExclamation c => "expected '!', but found " ++ found c
  | .expectedAngle c => "expected '>', but found " ++ found c
  | .expectedUri c => "expected URI, but found " ++ found c
  | .expectedUriEscape c =>
      "expected URI escape sequence of 2 hexadecimal numbers, but found " ++ found c
  | .undecodableUri fault => fault.message
  | .zeroIndentation => "expected indentation indicator in the range 1-9, but found 0"
  | .expectedIndicator c =>
      "expected chomping or indentation indicators, but found " ++ found c
  | .expectedHex n c =>
      "expected escape sequence of " ++ toString n ++ " hexadecimal numbers, but found "
        ++ found c
  | .unknownEscape c => "found unknown escape character " ++ found c
  | .endOfStream => "found unexpected end of stream"
  | .documentSeparator => "found unexpected document separator"
  | .duplicateVersion => "found duplicate YAML directive"
  | .incompatibleVersion => "found incompatible YAML document (version 1.* is required)"
  | .duplicateHandle handle => "duplicate tag handle " ++ quoted handle
  | .undefinedHandle handle => "found undefined tag handle " ++ quoted handle
  | .expectedDocumentStart id => "expected '<document start>', but found " ++ quoted id
  | .expectedContent id => "expected the node content, but found " ++ quoted id
  | .expectedBlockEnd id => "expected <block end>, but found " ++ quoted id
  | .expectedCommaOrBracket id => "expected ',' or ']', but got " ++ quoted id
  | .expectedCommaOrBrace id => "expected ',' or '\x7d', but got " ++ quoted id
  | .undefinedAlias name => "found undefined alias " ++ quoted name
  | .secondAnchor => "second occurrence"
  | .secondDocument => "but found another document"
  | .unhashableKey => "found unhashable key"
  | .expectedMergeable node =>
      "expected a mapping or list of mappings for merging, but found " ++ node
  | .expectedMergeableItem node => "expected a mapping for merging, but found " ++ node
  | .unknownTag tag => "could not determine a constructor for the tag " ++ quoted tag
  | .expectedScalar node => "expected a scalar node, but found " ++ node
  | .expectedSequence node => "expected a sequence node, but found " ++ node
  | .expectedMapping node => "expected a mapping node, but found " ++ node
  | .expectedEntries node => "expected a sequence, but found " ++ node
  | .expectedSingleton node => "expected a mapping of length 1, but found " ++ node
  | .expectedSingleItem n =>
      "expected a single mapping item, but found " ++ toString n ++ " items"
  | .notAscii first last code =>
      "failed to convert base64 data into ascii: 'ascii' codec can't encode "
        ++ (if first == last then
              "character '" ++ codeText code ++ "' in position " ++ toString first
            else "characters in position " ++ toString first ++ "-" ++ toString last)
        ++ ": ordinal not in range(128)"
  | .incorrectPadding => "failed to decode base64 data: Incorrect padding"
  | .danglingSextet n =>
      "failed to decode base64 data: Invalid base64-encoded string: number of data characters ("
        ++ toString n ++ ") cannot be 1 more than a multiple of 4"
where
  /-- A character between quotes. -/
  found (c : Char) : String := quoted (String.singleton c)

/-- A place where a text stops being a document. -/
structure Flaw where
  context : Option Context
  start : Option Mark
  problem : Problem
  mark : Mark
  deriving DecidableEq, Repr

/-- The words for a flaw in the given text.  The start is left out where it is the place
of the problem itself. -/
def Flaw.message (source : List Char) (flaw : Flaw) : String :=
  let start :=
    match flaw.start with
    | some mark =>
        if mark.line == flaw.mark.line && mark.column == flaw.mark.column then []
        else [mark.describe source]
    | none => []
  "\n".intercalate
    ((flaw.context.map Context.message).toList ++ start
      ++ [flaw.problem.message, flaw.mark.describe source])

inductive Fault where
  | unacceptable (code position : Nat)
  | flaw (flaw : Flaw)
  | codeOutOfRange
  | hugeCode
  | notInt (base : Nat) (codes : Codes)
  | tooManyDigits (digits : Nat)
  | notFloat (codes : Codes)
  | largeFactor
  | notBool (codes : Codes)
  | emptyNumeral
  | notTimestamp
  | entriesForTimestamp
  | endlessDefault
  | calendar (fault : CalendarFault)
  deriving DecidableEq, Repr

def cut (s : String) : String :=
  String.ofList (s.toList.take 200)

def Fault.message (source : String) : Fault → String
  | .unacceptable code position =>
      let digits := Nat.toDigits 16 code
      "unacceptable character #x"
        ++ String.ofList (List.replicate (4 - digits.length) '0' ++ digits)
        ++ ": special characters are not allowed\n  in \"<unicode string>\", position "
        ++ toString position
  | .flaw f => f.message source.toList
  | .codeOutOfRange => "chr() arg not in range(0x110000)"
  | .hugeCode => "Python int too large to convert to C int"
  | .notInt base codes =>
      "invalid literal for int() with base " ++ toString base ++ ": " ++ cut codes.quoted
  | .tooManyDigits digits => Decimal.tooLongText digits
  | .notFloat codes => "could not convert string to float: " ++ codes.quoted
  | .largeFactor => "int too large to convert to float"
  | .notBool codes => codes.quoted
  | .emptyNumeral => "string index out of range"
  | .notTimestamp => "'NoneType' object has no attribute 'groupdict'"
  | .entriesForTimestamp => "expected string or bytes-like object, got 'list'"
  | .endlessDefault => "maximum recursion depth exceeded"
  | .calendar fault => fault.message

/-- Whether a fault concerns the form of the document and not the text of a scalar. -/
def Fault.isFlaw : Fault → Bool
  | .unacceptable _ _ => true
  | .flaw _ => true
  | _ => false

/-- Whether a scalar has no form at all: its text is none that its tag asks for, or has no end, or
a number in it is beyond what a machine counts. -/
def Fault.isFormless : Fault → Bool
  | .notBool _ | .emptyNumeral | .notTimestamp | .entriesForTimestamp | .endlessDefault
  | .largeFactor | .hugeCode => true
  | _ => false

end Yaml
end TextMate
