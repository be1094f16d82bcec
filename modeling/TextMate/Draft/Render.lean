import TextMate.Draft.Check
import TextMate.Draft.Document
import TextMate.Grammar.Render

/-!
# Rendering drafts

JSON names members by texts: numbers, truth values and nothing are spelled out as
names, other keys are refused.  YAML has keys of any kind.  In both, a mapping
that is only a view is no value of a document.
-/

namespace TextMate
namespace Draft

def jsonName (key : Value) : Except Fault String :=
  match key with
  | .text s => .ok s
  | .null => .ok "null"
  | .bool b => .ok (if b then "true" else "false")
  | .int n => .ok (toString n)
  | .float x => .ok (Json.floatText x)
  | v => .error (.jsonKey v.typeName)

mutual

def toTree : Value → Except Fault Tree
  | .null => .ok .null
  | .bool b => .ok (.bool b)
  | .int n => .ok (.int n)
  | .float x => .ok (.float x)
  | .text s => .ok (.text s)
  | .list vs | .tuple vs => return .list (← toItems vs)
  | .dict es => return .object (← toMembers es)
  | v => .error (.jsonValue v.typeName)

def toItems : List Value → Except Fault (List Tree)
  | [] => .ok []
  | v :: vs => return (← toTree v) :: (← toItems vs)

def toMembers : List (Value × Value) → Except Fault (List (String × Tree))
  | [] => .ok []
  | (key, v) :: es => do
      let name ← jsonName key
      return (name, ← toTree v) :: (← toMembers es)

end

mutual

def toOutline : Value → Except Fault Yaml.Outline
  | .null => .ok .null
  | .bool b => .ok (.bool b)
  | .int n => .ok (.int n)
  | .float x => .ok (.float x)
  | .text s => .ok (.text s)
  | .list vs | .tuple vs => return .sequence (← toSequence vs)
  | .dict es => return .mapping (← toMapping es)
  | v => .error (.yamlValue v.quotedForm)

def toSequence : List Value → Except Fault (List Yaml.Outline)
  | [] => .ok []
  | v :: vs => return (← toOutline v) :: (← toSequence vs)

def toMapping : List (Value × Value) → Except Fault (List (Yaml.Outline × Yaml.Outline))
  | [] => .ok []
  | (key, v) :: es => do
      let name ← toOutline key
      return (name, ← toOutline v) :: (← toMapping es)

end

def print (format : Format) (v : Value) : Except Fault String :=
  match format with
  | .yaml => return (← toOutline v).print
  | .json => return Json.print (← toTree v)

def render (format : Format) (g : Value) : Except Fault Rendering := do
  let (prepared, report) ← prepare g
  return ⟨← print format (plain prepared), format, report.warnings⟩

def summary (name path g : Value) : Except Fault Value := do
  let scopeName ← read g .scopeName
  let displayName ← read g .name
  let fileTypes ← membersOrNone (← read g .fileTypes)
  let patterns ← countOrZero (← read g .patterns)
  let entries ← countOrZero (← read g .repository)
  let given : List (Field × Value) :=
    [(.name, name), (.scopeName, scopeName), (.displayName, displayName),
      (.fileTypes, .list fileTypes), (.patternCount, .int patterns),
      (.repositoryCount, .int entries), (.path, path)]
  (check .summary (ofNamed (given.map fun f => (f.1.label, f.2)))).mapError .rejected

end Draft
end TextMate
