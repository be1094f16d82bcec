import TextMate.Draft.Members
import TextMate.Draft.Walk
import TextMate.Value.Fields

/-!
# Reports on drafts

A draft is searched like a checked grammar and in the same order.  The search
ends with a fault as soon as something is met that cannot be looked at.
-/

namespace TextMate
namespace Draft

def scopeNameIssues (g : Value) : Except Fault (List Issue) := do
  match ← read g .scopeName with
  | .text name => return Report.ofScopeName name
  | .bytes _ => throw .bytesForText
  | v => throw (.notText v.typeName)

def targetText (v : Value) : Except Fault String := do
  match ← read v .target with
  | .text target => return target
  | .bytes _ => throw .bytesMark
  | w => throw (.noAttribute w.typeName "startswith")

def targetIssues (names : List Value) (location : String) (v : Value) :
    Except Fault (List Issue) := do
  let target ← read v .target
  if target.isTruthy then
    let defines (name : String) : Bool := names.any (Value.text name).same
    return Report.ofTarget defines location (← targetText v)
  else return [Issue.emptyInclude location target]

def captureKeyIssues (location : String) (key : Value) : Except Fault (List Issue) :=
  match key with
  | .text key => .ok (Report.ofCaptureKeys location [key])
  | v => .error (.noAttribute v.typeName "isdigit")

def captureIssues (location : String) (v : Value) (field : Field) :
    Except Fault (List Issue) := do
  let keys ← membersOrNone (← read v field)
  return (← keys.mapM (captureKeyIssues (location ++ "/" ++ field.documentKey))).flatten

def patternIssues (names : List Value) (location : String) (v : Value) :
    Except Fault (List Issue) :=
  match v.kind? with
  | some .reference => targetIssues names location v
  | some .matching => captureIssues location v .captures
  | some .block => do
      let both ← captureIssues location v .captures
      let opening ← captureIssues location v .openingCaptures
      let closing ← captureIssues location v .closingCaptures
      return both ++ opening ++ closing
  | _ => .ok []

def follow {α : Type} (trail : Trail) (f : String → Value → Except Fault (List α)) :
    Except Fault (List α) := do
  let found ← trail.visited.mapM fun node => f node.1 node.2
  match trail.fault with
  | some fault => throw fault
  | none => return found.flatten

def usedEntry (v : Value) : Except Fault (List String) :=
  match v.kind? with
  | some .reference => return (Include.entryName? (← targetText v)).toList
  | _ => .ok []

def unusedIssues (g : Value) : Except Fault (List Issue) := do
  let repository ← read g .repository
  if !repository.isTruthy then return []
  let used ← follow (walkGrammar g) fun _ v => usedEntry v
  let isUsed (key : Value) : Bool := used.any fun name => key.same (.text name)
  let keys ← members repository
  return (keys.filter fun key => !isUsed key).map
    fun key => Issue.unusedEntry key.plainForm key

def report (g : Value) : Except Fault Report := do
  let scope ← scopeNameIssues g
  let names ← names (← read g .repository)
  let patterns ← follow (walkGrammar g) (patternIssues names)
  let unused ← unusedIssues g
  return ⟨scope ++ patterns ++ unused⟩

end Draft
end TextMate
