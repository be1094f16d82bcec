import TextMate.Grammar.Report
import TextMate.Json.Tree

/-!
# Documents of grammars

The document of a grammar has the keys that editors expect, in a fixed order.
Required fields are always there, even when they are empty; an optional one is
left out when it is absent or empty.
-/

namespace TextMate

def textMember (key : String) (s : Option String) : List (String × Tree) :=
  match s with
  | some s => if s.isEmpty then [] else [(key, .text s)]
  | none => []

def Capture.document (c : Capture) : Tree :=
  .object [("name", .text c.name)]

def capturesMember (key : String) (captures : Captures Capture) : List (String × Tree) :=
  match captures with
  | some (c :: cs) => [(key, .object ((c :: cs).map fun e => (e.1, e.2.document)))]
  | _ => []

namespace Pattern

mutual

def document : Pattern → Tree
  | matching rule =>
      .object (textMember "name" rule.name ++ [("match", .text rule.regex)]
        ++ capturesMember "captures" rule.captures)
  | block rule patterns =>
      .object (textMember "name" rule.name
        ++ [("begin", .text rule.opening)]
        ++ capturesMember "beginCaptures" rule.openingCaptures
        ++ [("end", .text rule.closing)]
        ++ capturesMember "endCaptures" rule.closingCaptures
        ++ capturesMember "captures" rule.captures
        ++ textMember "contentName" rule.contentName
        ++ patternsMember patterns)
  | reference target => .object [("include", .text target)]

def patternsMember : Option (List Pattern) → List (String × Tree)
  | some (p :: ps) => [("patterns", .list (document p :: documents ps))]
  | _ => []

def documents : List Pattern → List Tree
  | [] => []
  | p :: ps => document p :: documents ps

end

end Pattern

namespace Grammar

def fileTypesMember (types : Option (List String)) : List (String × Tree) :=
  match types with
  | some (t :: ts) => [("fileTypes", .list ((t :: ts).map .text))]
  | _ => []

def repositoryMember (entries : Option (List (String × Pattern))) : List (String × Tree) :=
  match entries with
  | some (e :: es) => [("repository", .object ((e :: es).map fun e => (e.1, e.2.document)))]
  | _ => []

def plainDocument (g : Grammar) : Tree :=
  let h := g.header
  .object (textMember "$schema" h.schemaUri
    ++ textMember "name" h.name
    ++ [("scopeName", .text h.scopeName)]
    ++ fileTypesMember h.fileTypes
    ++ textMember "foldingStartMarker" h.foldingStartMarker
    ++ textMember "foldingStopMarker" h.foldingStopMarker
    ++ [("firstLineMatch", .text h.firstLineMatch),
      ("injectionSelector", .text h.injectionSelector), ("uuid", .text h.uuid)]
    ++ Pattern.patternsMember g.patterns
    ++ repositoryMember g.repository)

def prepare (g : Grammar) : Except DanglingReferences (Grammar × Report) :=
  let report := g.report
  match report.dangling? with
  | some dangling => .error dangling
  | none => .ok (g.unmarkIncludes, report)

def document (g : Grammar) : Except DanglingReferences Tree :=
  g.prepare.map fun prepared => prepared.1.plainDocument

end Grammar
end TextMate
