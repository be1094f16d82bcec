import TextMate.Draft.Fault
import TextMate.Files.Store
import TextMate.Grammar.Source
import TextMate.Text.Utf8

/-!
# Failures

What can go wrong between files and grammars.  A listing leaves out files that
cannot be read or hold no grammar; only scalars whose tag asks for a form they do
not have, and escapes beyond what a machine counts, make the whole listing fail.
-/

namespace TextMate
namespace Catalog

inductive Failure where
  | file (error : Files.FileError)
  | encoding (fault : Text.Utf8Fault)
  | source (error : SourceError)
  | format (error : FormatError)
  | dangling (references : DanglingReferences)
  | draft (fault : Draft.Fault)
  | noProject
  | inProject (name : String)

namespace Failure

def message : Failure → String
  | file error => error.message
  | encoding fault => fault.message
  | source error => error.message
  | format error => error.message
  | dangling references => references.message
  | draft fault => fault.message
  | noProject => "No project path configured"
  | inProject name => "Grammar already exists in project: " ++ name

def isSkipped : Failure → Bool
  | file _ | encoding _ => true
  | source error => !error.isFormless
  | _ => false

end Failure
end Catalog
end TextMate
