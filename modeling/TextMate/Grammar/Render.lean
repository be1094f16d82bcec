import TextMate.Grammar.Document
import TextMate.Grammar.Format

/-!
# Rendering grammars

Rendering gives the text of a grammar's document together with the warnings on
the grammar.  It fails only where references dangle: running out of stack on deep
nesting, as in printing about 164 blocks inside each other as YAML, is outside of
what is described here.
-/

namespace TextMate

structure Rendering where
  text : String
  format : Format
  warnings : List String
  deriving Repr

def Grammar.render (g : Grammar) (format : Format) : Except DanglingReferences Rendering :=
  g.prepare.map fun prepared =>
    ⟨format.print prepared.1.plainDocument, format, prepared.2.warnings⟩

structure Summary where
  name : String
  scopeName : String
  displayName : Option String
  fileTypes : List String
  patternCount : Nat
  repositoryCount : Nat
  path : Option String
  deriving DecidableEq, Repr

def Grammar.summary (g : Grammar) (name : String) (path : Option String) : Summary :=
  { name := name
    scopeName := g.header.scopeName
    displayName := g.header.name
    fileTypes := g.header.fileTypes.getD []
    patternCount := g.topLevel.length
    repositoryCount := g.entries.length
    path := path }

end TextMate
