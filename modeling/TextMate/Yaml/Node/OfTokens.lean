import TextMate.Yaml.Token.Lexer
import TextMate.Yaml.Node

/-!
# Nodes from tokens

The tokens of a document are read by recursive descent.  Properties come first,
then the content of a node; missing content is an empty plain scalar.  A
collection has its number before its members are read, so that they may refer to
it.  A stream holds at most one document.
-/

namespace TextMate
namespace Yaml

/-- What is known while nodes are read: the tokens left, the fault that ended them, the
handles of tags, the nodes so far and the numbers of those with an anchor. -/
structure NodeReader where
  tokens : List Token
  fault : Fault
  handles : List (String × String)
  nodes : Nodes
  anchors : List (String × Nat)

namespace NodeReader

/-- The number of a node and what is known after it, or the fault that was met first. -/
abbrev Result := Except Fault (Nat × NodeReader)

def peek (r : NodeReader) : Except Fault Token :=
  match r.tokens with
  | [] => .error r.fault
  | token :: _ => .ok token

def peekKind (r : NodeReader) : Except Fault TokenKind :=
  r.peek.map (·.kind)

def drop (r : NodeReader) : NodeReader :=
  { r with tokens := r.tokens.drop 1 }

def fail {α : Type} (problem : Problem) (mark : Mark) : Except Fault α :=
  .error (.flaw ⟨none, none, problem, mark⟩)

def failIn {α : Type} (context : Context) (start : Mark) (problem : Problem) (mark : Mark) :
    Except Fault α :=
  .error (.flaw ⟨some context, some start, problem, mark⟩)

def commonHandles : List (String × String) :=
  [("!", "!"), ("!!", Tag.common)]

/-- The directives before a document.  There is one version at most, and no handle is
defined twice. -/
def readDirectives : List Token → Bool → List (String × String) →
    Except Fault (List (String × String) × List Token)
  | [], _, handles => .ok (handles, [])
  | token :: tokens, versioned, handles =>
      match token.kind with
      | .directive (.version major _) =>
          if versioned then fail .duplicateVersion token.start
          else if major != 1 then fail .incompatibleVersion token.start
          else readDirectives tokens true handles
      | .directive (.handle handle replacement) =>
          if handles.any fun h => h.1 == handle then
            fail (.duplicateHandle handle) token.start
          else readDirectives tokens versioned (handles ++ [(handle, replacement)])
      | .directive (.reserved _) => readDirectives tokens versioned handles
      | _ => .ok (handles, token :: tokens)

/-- Anchor and tag of a node and the places of the first of them and of the tag. -/
structure Properties where
  anchor : Option String
  tag : Option (Option String × String)
  start : Option Mark
  tagStart : Mark

def properties (r : NodeReader) : Except Fault (Properties × NodeReader) := do
  let first ← r.peek
  match first.kind with
  | .anchor name =>
      let r := r.drop
      let second ← r.peek
      match second.kind with
      | .tag handle suffix =>
          return (⟨some name, some (handle, suffix), some first.start, second.start⟩, r.drop)
      | _ => return (⟨some name, none, some first.start, first.start⟩, r)
  | .tag handle suffix =>
      let r := r.drop
      let second ← r.peek
      match second.kind with
      | .anchor name =>
          return (⟨some name, some (handle, suffix), some first.start, first.start⟩, r.drop)
      | _ => return (⟨none, some (handle, suffix), some first.start, first.start⟩, r)
  | _ => return (⟨none, none, none, first.start⟩, r)

/-- The full name of a tag: its handle is replaced. -/
def tagName (r : NodeReader) (start : Mark) (properties : Properties) :
    Except Fault (Option String) :=
  match properties.tag with
  | none => .ok none
  | some (none, suffix) => .ok (some suffix)
  | some (some handle, suffix) =>
      match r.handles.find? fun h => h.1 == handle with
      | some h => .ok (some (h.2 ++ suffix))
      | none => failIn .node start (.undefinedHandle handle) properties.tagStart

/-- The tag of a collection; an exclamation mark alone names none. -/
def collectionTag (name : Option String) (tag : Tag) : Tag :=
  match name with
  | none => tag
  | some name => if name == "!" then tag else .ofName name

/-- The tag of a scalar.  Without a name it depends on the text if the scalar is plain; an
exclamation mark alone asks for the same. -/
def scalarTag (name : Option String) (content : ScalarText) : Tag :=
  let looks := (content.codes.text?.map Tag.ofText).getD .text
  match name with
  | none => if content.plain then looks else .text
  | some name => if name == "!" then looks else .ofName name

def anchored? (r : NodeReader) (name : String) : Option Nat :=
  (r.anchors.find? fun a => a.1 == name).map (·.2)

def checkAnchor (r : NodeReader) (anchor : Option String) (start : Mark) : Except Fault Unit :=
  match anchor with
  | none => .ok ()
  | some name =>
      match r.anchored? name with
      | some first =>
          failIn (.firstAnchor name) (r.nodes.node first).start .secondAnchor start
      | none => .ok ()

def resolve (r : NodeReader) (name : String) (start : Mark) : Result :=
  match r.anchored? name with
  | some n => .ok (n, r)
  | none => fail (.undefinedAlias name) start

def add (r : NodeReader) (anchor : Option String) (node : Node) : Nat × NodeReader :=
  let n := r.nodes.size
  let anchors :=
    match anchor with
    | some name => (name, n) :: r.anchors
    | none => r.anchors
  (n, { r with nodes := r.nodes.push node, anchors := anchors })

def fill (r : NodeReader) (n : Nat) (content : Content) : Nat × NodeReader :=
  (n, { r with nodes := r.nodes.setContent n content })

def addEmpty (r : NodeReader) (mark : Mark) : Nat × NodeReader :=
  r.add none ⟨.null, .scalar [], mark⟩

/-- Where a node stands: between brackets, in a block, or in a block mapping, where a
sequence need not be indented. -/
inductive Position where
  | flow
  | block
  | blockValue
  deriving DecidableEq, Repr

mutual

def readNode : Nat → Position → NodeReader → Result
  | 0, _, r => .error r.fault
  | fuel + 1, position, r => do
      let first ← r.peek
      match first.kind with
      | .alias name => r.drop.resolve name first.start
      | _ =>
          let (properties, r) ← r.properties
          let name ← r.tagName (properties.start.getD first.start) properties
          let anchor := properties.anchor
          let token ← r.peek
          let start := properties.start.getD token.start
          let openSequence (r : NodeReader) : Nat × NodeReader :=
            r.add anchor ⟨collectionTag name .sequence, .sequence [], start⟩
          let openMapping (r : NodeReader) : Nat × NodeReader :=
            r.add anchor ⟨collectionTag name .mapping, .mapping [], start⟩
          match token.kind with
          | .scalar content =>
              r.checkAnchor anchor start
              return r.drop.add anchor ⟨scalarTag name content, .scalar content.codes, start⟩
          | .flowSequenceStart =>
              r.checkAnchor anchor start
              let (n, r) := openSequence r.drop
              let (items, r) ← readFlowItems fuel token.start true r
              return r.fill n (.sequence items)
          | .flowMappingStart =>
              r.checkAnchor anchor start
              let (n, r) := openMapping r.drop
              let (entries, r) ← readFlowEntries fuel token.start true r
              return r.fill n (.mapping entries)
          | kind =>
              if kind == .blockEntry && position == .blockValue then
                r.checkAnchor anchor start
                let (n, r) := openSequence r
                let (items, r) ← readIndentlessItems fuel r
                return r.fill n (.sequence items)
              if kind == .blockSequenceStart && position != .flow then
                r.checkAnchor anchor start
                let (n, r) := openSequence r.drop
                let (items, r) ← readBlockItems fuel token.start r
                return r.fill n (.sequence items)
              if kind == .blockMappingStart && position != .flow then
                r.checkAnchor anchor start
                let (n, r) := openMapping r.drop
                let (entries, r) ← readBlockEntries fuel token.start r
                return r.fill n (.mapping entries)
              if properties.start.isSome then
                r.checkAnchor anchor start
                let tag :=
                  match name with
                  | some name => if name == "!" then Tag.null else .ofName name
                  | none => .null
                return r.add anchor ⟨tag, .scalar [], start⟩
              failIn (if position == .flow then .flowNode else .blockNode) start
                (.expectedContent kind.id) token.start

/-- A node, or an empty scalar at a mark if one of some tokens stands in its place. -/
def readOptional (fuel : Nat) (position : Position) (absent : TokenKind → Bool) (mark : Mark)
    (r : NodeReader) : Result := do
  if absent (← r.peekKind) then return r.addEmpty mark
  else readNode fuel position r

def readBlockItems : Nat → Mark → NodeReader → Except Fault (List Nat × NodeReader)
  | 0, _, r => .error r.fault
  | fuel + 1, start, r => do
      let token ← r.peek
      match token.kind with
      | .blockEntry =>
          let (item, r) ← readOptional fuel .block
            (fun kind => kind == .blockEntry || kind == .blockEnd) token.stop r.drop
          let (items, r) ← readBlockItems fuel start r
          return (item :: items, r)
      | .blockEnd => return ([], r.drop)
      | kind => failIn .blockCollection start (.expectedBlockEnd kind.id) token.start

def readIndentlessItems : Nat → NodeReader → Except Fault (List Nat × NodeReader)
  | 0, r => .error r.fault
  | fuel + 1, r => do
      let token ← r.peek
      if token.kind != .blockEntry then return ([], r)
      let (item, r) ← readOptional fuel .block
        (fun kind => kind == .blockEntry || kind == .key || kind == .value || kind == .blockEnd)
        token.stop r.drop
      let (items, r) ← readIndentlessItems fuel r
      return (item :: items, r)

def readBlockEntries : Nat → Mark → NodeReader →
    Except Fault (List (Nat × Nat) × NodeReader)
  | 0, _, r => .error r.fault
  | fuel + 1, start, r => do
      let absent (kind : TokenKind) : Bool :=
        kind == .key || kind == .value || kind == .blockEnd
      let token ← r.peek
      if token.kind == .blockEnd then return ([], r.drop)
      if token.kind != .key then
        failIn .blockMapping start (.expectedBlockEnd token.kind.id) token.start
      let (key, r) ← readOptional fuel .blockValue absent token.stop r.drop
      let token ← r.peek
      let (value, r) ← (show Result from
        match token.kind with
        | .value => readOptional fuel .blockValue absent token.stop r.drop
        | _ => return r.addEmpty token.start)
      let (entries, r) ← readBlockEntries fuel start r
      return ((key, value) :: entries, r)

def readFlowItems : Nat → Mark → Bool → NodeReader → Except Fault (List Nat × NodeReader)
  | 0, _, _, r => .error r.fault
  | fuel + 1, start, isFirst, r => do
      let token ← r.peek
      if token.kind == .flowSequenceEnd then return ([], r.drop)
      if !isFirst && token.kind != .flowEntry then
        failIn .flowSequence start (.expectedCommaOrBracket token.kind.id) token.start
      let r := if isFirst then r else r.drop
      let token ← r.peek
      if token.kind == .flowSequenceEnd then return ([], r.drop)
      let (item, r) ← (show Result from
        if token.kind == .key then do
          let (n, r) := r.drop.add none ⟨.mapping, .mapping [], token.start⟩
          let (entry, r) ← readSingleEntry fuel r token.stop
          return r.fill n (.mapping [entry])
        else readNode fuel .flow r)
      let (items, r) ← readFlowItems fuel start false r
      return (item :: items, r)

/-- The key and value of a mapping of one entry that stands without braces in a sequence. -/
def readSingleEntry : Nat → NodeReader → Mark → Except Fault ((Nat × Nat) × NodeReader)
  | 0, r, _ => .error r.fault
  | fuel + 1, r, keyStop => do
      let (key, r) ← readOptional fuel .flow
        (fun kind => kind == .value || kind == .flowEntry || kind == .flowSequenceEnd) keyStop r
      let token ← r.peek
      let (value, r) ← (show Result from
        match token.kind with
        | .value =>
            readOptional fuel .flow
              (fun kind => kind == .flowEntry || kind == .flowSequenceEnd) token.stop r.drop
        | _ => return r.addEmpty token.start)
      return ((key, value), r)

def readFlowEntries : Nat → Mark → Bool → NodeReader →
    Except Fault (List (Nat × Nat) × NodeReader)
  | 0, _, _, r => .error r.fault
  | fuel + 1, start, isFirst, r => do
      let token ← r.peek
      if token.kind == .flowMappingEnd then return ([], r.drop)
      if !isFirst && token.kind != .flowEntry then
        failIn .flowMapping start (.expectedCommaOrBrace token.kind.id) token.start
      let r := if isFirst then r else r.drop
      let token ← r.peek
      match token.kind with
      | .flowMappingEnd => return ([], r.drop)
      | .key =>
          let (key, r) ← readOptional fuel .flow
            (fun kind => kind == .value || kind == .flowEntry || kind == .flowMappingEnd)
            token.stop r.drop
          let token ← r.peek
          let (value, r) ← (show Result from
            match token.kind with
            | .value =>
                readOptional fuel .flow
                  (fun kind => kind == .flowEntry || kind == .flowMappingEnd) token.stop r.drop
            | _ => return r.addEmpty token.start)
          let (entries, r) ← readFlowEntries fuel start false r
          return ((key, value) :: entries, r)
      | _ =>
          let (key, r) ← readNode fuel .flow r
          let token ← r.peek
          let (value, r) := r.addEmpty token.start
          let (entries, r) ← readFlowEntries fuel start false r
          return ((key, value) :: entries, r)

end

/-- The documents of a stream: nothing, or the single one. -/
def readStream (fuel : Nat) (r : NodeReader) : Except Fault (Option Document) := do
  let r := { r with tokens := (← r.peek, r.tokens.drop 1).2 }
  let first ← r.peek
  let isExplicit :=
    match first.kind with
    | .directive _ | .documentStart => true
    | _ => false
  if first.kind == .streamEnd then return none
  let (_, r) ← (show Except Fault (Mark × NodeReader) from
    if isExplicit then explicitStart r
    else return (first.start, { r with handles := commonHandles }))
  let token ← r.peek
  let absent (kind : TokenKind) : Bool :=
    match kind with
    | .directive _ | .documentStart | .documentEnd | .streamEnd => true
    | _ => false
  let (root, r) ←
    if isExplicit && absent token.kind then pure (r.addEmpty token.start)
    else readNode fuel .block r
  let token ← r.peek
  let r := if token.kind == .documentEnd then r.drop else r
  match ← another? fuel r with
  | none => return some ⟨r.nodes, root⟩
  | some mark =>
      failIn .singleDocument (r.nodes.node root).start .secondDocument mark
where
  /-- The directives and the border in front of a document, and where they begin. -/
  explicitStart (r : NodeReader) : Except Fault (Mark × NodeReader) := do
    let first ← r.peek
    let (handles, tokens) ← readDirectives r.tokens false []
    let common := commonHandles.filter fun h => !handles.any fun g => g.1 == h.1
    let r := { r with tokens := tokens, handles := handles ++ common }
    let token ← r.peek
    if token.kind != .documentStart then
      fail (.expectedDocumentStart token.kind.id) token.start
    return (first.start, r.drop)
  /-- Reads over borders that only end documents, to the start of another document if the
  stream does not end there. -/
  another? : Nat → NodeReader → Except Fault (Option Mark)
    | 0, _ => return none
    | fuel + 1, r => do
        let token ← r.peek
        if token.kind == .documentEnd then another? fuel r.drop
        else if token.kind == .streamEnd then return none
        else return some (← explicitStart r).1

end NodeReader

def Document.ofText? (s : String) : Except Fault (Option Document) :=
  let (tokens, fault) := tokenize s.toList
  NodeReader.readStream (2 * tokens.length + 2) ⟨tokens, fault.getD .emptyNumeral, [], #[], []⟩

end Yaml
end TextMate
