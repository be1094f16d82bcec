import TextMate.Decimal.Numeral
import TextMate.Server.Tool
import TextMate.Text.Quoted

/-!
# Command line

The server is told by switches how to talk and at which number, and whether to log
in detail.  A long switch may be shortened as long as one switch only is meant.
Its argument follows as the next word or behind an equals sign.  Words that are
neither switches nor arguments are refused together after all switches are read;
any other fault stops the reading where it occurs.
-/

namespace TextMate
namespace Server

inductive Transport where
  | stdio
  | http
  deriving DecidableEq, Repr

def Transport.word : Transport → String
  | .stdio => "stdio"
  | .http => "http"

def Transport.all : List Transport := [.stdio, .http]

/-- What the switches say.  The number is nothing where its switch gave none. -/
structure Options where
  transport : Transport
  httpPort : Option Int
  debug : Bool
  deriving DecidableEq, Repr

def Options.default : Options := ⟨.stdio, some 8000, false⟩

inductive Switch where
  | help
  | transport
  | httpPort
  | debug
  deriving DecidableEq, Repr

namespace Switch

def all : List Switch := [.help, .transport, .httpPort, .debug]

def spellings : Switch → List String
  | help => ["-h", "--help"]
  | transport => ["--transport"]
  | httpPort => ["--port"]
  | debug => ["--debug"]

def takesArgument : Switch → Bool
  | transport | httpPort => true
  | help | debug => false

def table : List (String × Switch) :=
  all.flatMap fun s => s.spellings.map fun spelling => (spelling, s)

def ofSpelling? (s : String) : Option Switch :=
  (table.find? fun e => e.1 == s).map (·.2)

end Switch

inductive Stop where
  | help
  | refused (message : String)
  deriving DecidableEq, Repr

/-! ## Words -/

/-- A word on the command line: a plain word, the border behind which all words are plain, or
a switch with what stands behind its equals sign.  A switch of one letter may have letters
behind it, with or without an equals sign. -/
inductive Word where
  | plain (text : String)
  | border
  | switch (switch : Switch) (explicit : Option String)
  | letters (switch : Switch) (behind : List Char)
  | unknown (text : String)
  deriving DecidableEq, Repr

def border : String := "--"

def splitEquals (cs : List Char) : List Char × Option String :=
  (cs.takeWhile (· != '='),
    match cs.dropWhile (· != '=') with
    | _ :: rest => some (String.ofList rest)
    | [] => none)

def isNegativeNumber (cs : List Char) : Bool :=
  let isFigures (ds : List Char) : Bool :=
    !ds.isEmpty && ds.all fun c => (Text.decimalValue? c).isSome
  let body := if cs.getLast? == some '\n' then cs.dropLast else cs
  match body with
  | '-' :: rest =>
      isFigures rest
        || (match rest.dropWhile fun c => (Text.decimalValue? c).isSome with
          | '.' :: fraction => isFigures fraction
          | _ => false)
  | _ => false

/-- A word with a hyphen in front that is no switch: a negative number or a word with blanks
is plain. -/
def otherWord (s : String) : Word :=
  if isNegativeNumber s.toList || s.toList.contains ' ' then .plain s else .unknown s

def ambiguous (s : String) (spellings : List String) : String :=
  "ambiguous option: " ++ s ++ " could match " ++ ", ".intercalate spellings

def readWord (s : String) : Except Stop Word :=
  match s.toList with
  | '-' :: second :: rest =>
      match Switch.ofSpelling? s with
      | some switch => .ok (.switch switch none)
      | none =>
          let (front, explicit) := splitEquals s.toList
          let spelling := String.ofList front
          match Switch.ofSpelling? spelling, explicit with
          | some switch, some value =>
              if second == '-' then .ok (.switch switch (some value))
              else .ok (.letters switch value.toList)
          | _, _ =>
              if second == '-' then
                match Switch.table.filter fun e => front.isPrefixOf e.1.toList with
                | [] => .ok (otherWord s)
                | [(_, switch)] => .ok (.switch switch explicit)
                | several => .error (.refused (ambiguous s (several.map (·.1))))
              else
                match Switch.ofSpelling? (String.ofList ['-', second]) with
                | some switch => .ok (.letters switch rest)
                | none => .ok (otherWord s)
  | _ => .ok (.plain s)

/-- Reads words; behind the border all are plain. -/
def readWords : List String → Except Stop (List Word)
  | [] => .ok []
  | s :: rest => do
      if s == border then return .border :: rest.map .plain
      let word ← readWord s
      return word :: (← readWords rest)

/-! ## Switches and their arguments -/

def Switch.complaint (s : Switch) (message : String) : Stop :=
  .refused ("argument " ++ "/".intercalate s.spellings ++ ": " ++ message)

def Switch.ignored (s : Switch) (explicit : String) : Stop :=
  s.complaint ("ignored explicit argument " ++ Text.quoted explicit)

/-- The effect of a switch that gets no argument because the border stands in its place: no
transport is named then, which is not the first one, and no number is given. -/
def Switch.applyBorder (s : Switch) (o : Options) : Options :=
  match s with
  | .transport => { o with transport := .http }
  | .httpPort => { o with httpPort := none }
  | .help | .debug => o

def Switch.apply (s : Switch) (argument : String) (o : Options) : Except Stop Options :=
  match s with
  | .help => .error .help
  | .debug => .ok { o with debug := true }
  | .httpPort =>
      match Decimal.readInt 10 argument.toList with
      | .ok n => .ok { o with httpPort := some n }
      | .error _ => .error (s.complaint ("invalid int value: " ++ Text.quoted argument))
  | .transport =>
      match Transport.all.find? fun t => t.word == argument with
      | some t => .ok { o with transport := t }
      | none =>
          let choices := ", ".intercalate (Transport.all.map fun t => Text.quoted t.word)
          .error (s.complaint
            ("invalid choice: " ++ Text.quoted argument ++ " (choose from " ++ choices ++ ")"))

def Switch.applyExplicit (s : Switch) (explicit : String) (o : Options) :
    Except Stop Options :=
  if s.takesArgument then
    if explicit == border then return s.applyBorder o else s.apply explicit o
  else throw (s.ignored explicit)

/-- The switches of one letter that letters name.  All of them have to. -/
def Switch.ofLetters (s : Switch) : List Char → Except Stop (List Switch)
  | [] => .ok []
  | c :: rest =>
      match Switch.ofSpelling? (String.ofList ['-', c]) with
      | some next => (next.ofLetters rest).map (next :: ·)
      | none => .error (s.ignored (String.ofList (c :: rest)))

def Switch.applyLetters (s : Switch) (letters : List Char) (o : Options) :
    Except Stop Options := do
  if s.takesArgument || letters.isEmpty then s.applyExplicit (String.ofList letters) o
  else
    let behind ← s.ofLetters letters
    (s :: behind).foldlM (fun o switch => switch.apply "" o) o

def keep (s : String) (read : Options × List String) : Options × List String :=
  (read.1, s :: read.2)

def readSwitches : List Word → Options → Except Stop (Options × List String)
  | [], o => .ok (o, [])
  | .switch s (some explicit) :: rest, o => do
      readSwitches rest (← s.applyExplicit explicit o)
  | .letters s behind :: rest, o => do
      readSwitches rest (← s.applyLetters behind o)
  | .switch s none :: rest, o => do
      if s.takesArgument then
        match rest with
        | .plain argument :: rest => readSwitches rest (← s.apply argument o)
        | _ => throw (s.complaint "expected one argument")
      else readSwitches rest (← s.apply "" o)
  | .plain s :: rest, o => (readSwitches rest o).map (keep s)
  | .border :: rest, o => (readSwitches rest o).map (keep border)
  | .unknown s :: rest, o => (readSwitches rest o).map (keep s)

def Options.ofArguments (arguments : List String) : Except Stop Options := do
  let (o, extra) ← readSwitches (← readWords arguments) Options.default
  if extra.isEmpty then return o
  else throw (.refused ("unrecognized arguments: " ++ " ".intercalate extra))

/-! ## Texts -/

def programName : String := "chuk-mcp-tmgrammar"

def usage : String :=
  "usage: " ++ programName ++ " [-h] [--transport \x7bstdio,http\x7d] [--port PORT]\n"
    ++ "                          [--debug]\n"

def helpText : String :=
  usage ++ "\nTextMate Grammar MCP Server\n\noptions:\n"
    ++ "  -h, --help            show this help message and exit\n"
    ++ "  --transport \x7bstdio,http\x7d\n"
    ++ "                        Transport mode (default: stdio)\n"
    ++ "  --port PORT           HTTP port (only for http transport)\n"
    ++ "  --debug               Enable debug logging\n"

def Stop.code : Stop → Nat
  | .help => 0
  | .refused _ => 2

def Stop.output : Stop → String
  | .help => helpText
  | .refused _ => ""

def Stop.complaint : Stop → String
  | .help => ""
  | .refused message => usage ++ programName ++ ": error: " ++ message ++ "\n"

def Options.httpText (o : Options) : String :=
  match o.httpPort with
  | some n => toString n
  | none => "[]"

def Options.announcement (o : Options) : String :=
  let place :=
    match o.transport with
    | .stdio => o.transport.word
    | .http => o.transport.word ++ ":" ++ o.httpText
  "Starting TextMate Grammar MCP Server (" ++ place ++ ")"

def Options.level (o : Options) : String :=
  if o.debug then "DEBUG" else "INFO"

end Server
end TextMate
