import TextMate.Value.Basic
import TextMate.Text.Quoted
import TextMate.Decimal.Shortest

/-!
# The text of a value

`quotedForm` is the form in which a value appears inside a message or inside
another value: texts and bytes are quoted and collections are bracketed.
`plainForm` is the form it takes as a key: a text stands for itself, with
replacement characters where it is broken, a date is written with hyphens, and
everything else is as in the quoted form.
-/

namespace TextMate
namespace Value

open Text

def typeName : Value → String
  | null => "NoneType"
  | bool _ => "bool"
  | int _ => "int"
  | float _ => "float"
  | text _ | broken _ => "str"
  | bytes _ => "bytes"
  | date _ => "date"
  | moment _ => "datetime"
  | list _ => "list"
  | tuple _ => "tuple"
  | set _ => "set"
  | dict _ => "dict"
  | view _ => "mappingproxy"
  | record kind _ => kind.title
  | anchored _ v => typeName v
  | again _ => "dict"

def commas (items : List String) : String :=
  ", ".intercalate items

def enclosed (opening closing : Char) (s : String) : String :=
  String.singleton opening ++ s ++ String.singleton closing

mutual

def quotedForm : Value → String
  | null => "None"
  | bool b => if b then "True" else "False"
  | int n => toString n
  | float x => x.text
  | text s => quoted s
  | broken codes => codes.quoted
  | bytes bs => quotedBytes bs
  | date d => d.callText
  | moment m => m.callText
  | list items => enclosed '[' ']' (commas (quotedItems items))
  | tuple items =>
      match items with
      | [item] => enclosed '(' ')' (quotedForm item ++ ",")
      | items => enclosed '(' ')' (commas (quotedItems items))
  | set items =>
      if items.isEmpty then "set()"
      else enclosed '\x7b' '\x7d' (commas (quotedItems items))
  | dict entries => enclosed '\x7b' '\x7d' (commas (quotedEntries entries))
  | view entries =>
      "mappingproxy(" ++ enclosed '\x7b' '\x7d' (commas (quotedEntries entries)) ++ ")"
  | record kind fields => kind.title ++ enclosed '(' ')' (commas (quotedFields fields))
  | anchored _ v => quotedForm v
  | again _ => "[...]"

def quotedItems : List Value → List String
  | [] => []
  | v :: vs => quotedForm v :: quotedItems vs

def quotedEntries : List (Value × Value) → List String
  | [] => []
  | (k, v) :: es => (quotedForm k ++ ": " ++ quotedForm v) :: quotedEntries es

def quotedFields : List (Field × Value) → List String
  | [] => []
  | (f, v) :: es => (f.label ++ "=" ++ quotedForm v) :: quotedFields es

end

def plainForm : Value → String
  | text s => s
  | broken codes => codes.shown
  | date d => d.text
  | moment m => m.text
  | record _ fields => " ".intercalate (quotedFields fields)
  | v => quotedForm v

end Value
end TextMate
