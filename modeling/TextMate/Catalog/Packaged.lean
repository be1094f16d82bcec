import TextMate.Files.Store
import TextMate.Text.Utf8

/-!
# The packaged grammar

One grammar comes with the program, as an example of how grammars are written.
-/

namespace TextMate
namespace Catalog

def exampleLines : List String :=
  [
    "# Small demonstration grammar. Includes of other grammars use the",
    "# authoring form \"!scope.name\", which must be quoted in YAML.",
    "$schema: https://raw.githubusercontent.com/martinring/tmlanguage/master/tmlanguage.json",
    "name: Demo",
    "scopeName: source.demo",
    "fileTypes:",
    "  - demo",
    "uuid: 6f1d3c52-2a4b-4c8e-9a1f-0d9e3b7c5a21",
    "patterns:",
    "  - include: \"#comments\"",
    "  - include: \"#keywords\"",
    "  - include: \"#strings\"",
    "repository:",
    "  comments:",
    "    name: comment.line.number-sign.demo",
    "    match: \"#.*$\"",
    "  keywords:",
    "    name: keyword.control.demo",
    "    match: \\b(if|else|while|return)\\b",
    "  strings:",
    "    name: string.quoted.double.demo",
    "    begin: '\"'",
    "    beginCaptures:",
    "      \"0\":",
    "        name: punctuation.definition.string.begin.demo",
    "    end: '\"'",
    "    endCaptures:",
    "      \"0\":",
    "        name: punctuation.definition.string.end.demo",
    "    patterns:",
    "      - name: constant.character.escape.demo",
    "        match: \\\\.",
    "      - include: \"!source.demo.interpolation\""
  ]

def exampleText : String :=
  "\n".intercalate exampleLines ++ "\n"

def packagedDirectory : Files.Path := ⟨.packaged, []⟩

def packagedStore : Files.Store :=
  ⟨[(⟨.packaged, ["demo.yaml"]⟩, .file (Text.encodeUtf8 exampleText))]⟩

end Catalog
end TextMate
