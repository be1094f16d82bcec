import TextMate.Grammar.Walk
import TextMate.Value.Basic
import TextMate.Text.Digits
import TextMate.Text.Quoted

/-!
# Reports on grammars

A report lists what is wrong or doubtful in a grammar: references to repository
entries that do not exist are errors and keep the grammar from being rendered;
odd scope names, empty or doubly marked references and capture keys that are no
group numbers are warnings; entries that nothing refers to are for information.
-/

namespace TextMate

inductive Severity where
  | error
  | warning
  | info
  deriving DecidableEq, Repr

def Severity.word : Severity → String
  | .error => "error"
  | .warning => "warning"
  | .info => "info"

def Severity.label : Severity → String
  | .error => "ERROR"
  | .warning => "WARNING"
  | .info => "INFO"

/-- Something wrong or doubtful, where it is, and what it is about. -/
structure Issue where
  severity : Severity
  code : String
  message : String
  location : Option String
  subject : Option Value

namespace Issue

def shows (s : Option String) : Bool :=
  s.any fun s => !s.isEmpty

def text (i : Issue) : String :=
  "[" ++ i.severity.label ++ "] " ++ i.code ++ ": " ++ i.message
    ++ (if shows i.location then " at " ++ i.location.getD "" else "")

def danglingCode : String := "DANGLING_REFERENCE"

def scopeName (name : String) : Issue :=
  ⟨.warning, "INVALID_SCOPE_NAME",
    "Scope name is not a dot-separated identifier: " ++ Text.quoted name,
    some "scopeName", some (.text name)⟩

def emptyInclude (location : String) (target : Value) : Issue :=
  ⟨.warning, "EMPTY_INCLUDE", "Include value is empty and will be emitted as-is",
    some location, some target⟩

def danglingMessage (target : String) : String :=
  "Include '" ++ target ++ "' has no matching repository entry."

def dangling (location target : String) : Issue :=
  ⟨.error, danglingCode, danglingMessage target, some location, some (.text target)⟩

def doubleMarker (location target : String) : Issue :=
  ⟨.warning, "DOUBLE_EXTERNAL_MARKER",
    "Only one leading '!' is stripped from " ++ Text.quoted target,
    some location, some (.text target)⟩

/-- A capture whose key is no group number; `location` is that of the captures. -/
def captureKey (location key : String) : Issue :=
  ⟨.warning, "INVALID_CAPTURE_KEY",
    "Capture key is not a group number: " ++ Text.quoted key,
    some (location ++ "/" ++ key), some (.text key)⟩

def unusedEntry (name : String) (subject : Value) : Issue :=
  ⟨.info, "UNUSED_REPOSITORY_ENTRY",
    "Repository entry '" ++ name ++ "' is never included",
    some ("repository/" ++ name), some subject⟩

end Issue

structure Report where
  issues : List Issue

namespace Report

def withSeverity (r : Report) (severity : Severity) : List Issue :=
  r.issues.filter fun i => i.severity == severity

def isValid (r : Report) : Bool :=
  !r.issues.any fun i => i.severity == .error

def warnings (r : Report) : List String :=
  (r.withSeverity .warning).map Issue.text

def text (r : Report) : String :=
  if r.issues.isEmpty then "Validation passed: no issues found"
  else "\n".intercalate (r.issues.map Issue.text)

def add (r : Report) (i : Issue) : Report :=
  ⟨r.issues ++ [i]⟩

end Report

/-- References to entries that do not exist: at least one, each with its location. -/
structure DanglingReferences where
  first : String × Option String
  others : List (String × Option String)
  deriving DecidableEq, Repr

namespace DanglingReferences

def ofList? : List (String × Option String) → Option DanglingReferences
  | [] => none
  | first :: others => some ⟨first, others⟩

def toList (d : DanglingReferences) : List (String × Option String) :=
  d.first :: d.others

def message (d : DanglingReferences) : String :=
  Issue.danglingMessage d.first.1
    ++ (if Issue.shows d.first.2 then " (at " ++ d.first.2.getD "" ++ ")" else "")
    ++ (if d.others.isEmpty then "" else " and " ++ toString d.others.length ++ " more")

theorem toList_of_ofList? {pairs : List (String × Option String)} {d : DanglingReferences}
    (h : ofList? pairs = some d) : d.toList = pairs := by
  cases pairs with
  | nil => cases h
  | cons first others =>
      cases h
      rfl

theorem ofList?_eq_none_iff (pairs : List (String × Option String)) :
    ofList? pairs = none ↔ pairs = [] := by
  cases pairs <;> simp [ofList?]

end DanglingReferences

namespace Report

def danglingPair (i : Issue) : Option (String × Option String) :=
  if i.severity == .error && i.code == Issue.danglingCode then
    match i.subject with
    | some (.text target) => some (target, i.location)
    | _ => some ("", i.location)
  else none

def dangling? (r : Report) : Option DanglingReferences :=
  DanglingReferences.ofList? (r.issues.filterMap danglingPair)

end Report

def isScopeChar (c : Char) : Bool :=
  (c.isAlphanum && c.toNat < 0x80) || c == '_' || c == '+' || c == '-'

/-- Whether a text consists of words with points between; one line feed may follow. -/
def isScopeName (s : String) : Bool :=
  let cs := s.toList
  let line := if cs.getLast? == some '\n' then cs.dropLast else cs
  (line.splitOn '.').all fun word => !word.isEmpty && word.all isScopeChar

namespace Report

def ofScopeName (name : String) : List Issue :=
  if isScopeName name then [] else [Issue.scopeName name]

/-- The issue of a reference at a location; `defines` tells the names of the repository. -/
def ofTarget (defines : String → Bool) (location target : String) : List Issue :=
  match target.toList with
  | [] => [Issue.emptyInclude location (.text target)]
  | '#' :: rest =>
      if defines (String.ofList rest) then [] else [Issue.dangling location target]
  | '!' :: '!' :: _ => [Issue.doubleMarker location target]
  | _ => []

def ofCaptureKeys (location : String) (keys : List String) : List Issue :=
  (keys.filter fun key => !Text.isDigits key).map (Issue.captureKey location)

def keys {κ : Type} (captures : Captures κ) : List String :=
  (captures.getD []).map (·.1)

def ofPattern (defines : String → Bool) (location : String) : Pattern → List Issue
  | .reference target => ofTarget defines location target
  | .matching rule => ofCaptureKeys (location ++ "/captures") (keys rule.captures)
  | .block rule _ =>
      ofCaptureKeys (location ++ "/captures") (keys rule.captures)
        ++ ofCaptureKeys (location ++ "/beginCaptures") (keys rule.openingCaptures)
        ++ ofCaptureKeys (location ++ "/endCaptures") (keys rule.closingCaptures)

end Report

/-- What is found in a grammar: in its scope name, in its patterns in order, and in the use
of its repository. -/
def Grammar.report (g : Grammar) : Report :=
  let used := g.targets.filterMap Include.entryName?
  ⟨Report.ofScopeName g.header.scopeName
    ++ g.walk.flatMap (fun node => Report.ofPattern g.names.contains node.1 node.2)
    ++ (g.names.filter fun name => !used.contains name).map
        fun name => Issue.unusedEntry name (.text name)⟩

end TextMate
