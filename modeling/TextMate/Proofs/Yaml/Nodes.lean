import TextMate.Proofs.Yaml.Layout
import TextMate.Yaml.Node.OfTokens

/-!
# Nodes of a layout

The tokens of a layout are read as nodes that represent the document with its
texts as they are read.  A collection has its number before its members have
theirs, so a representation is not disturbed by what happens to the nodes in
front of it.
-/

namespace TextMate
namespace Yaml

open Text

/-!
## Documents as they are read
-/

mutual

/-- A document inside a collection at a column, with the texts that are read where its own have
been written. -/
def reread (column : Nat) (level : Bool) : Tree → Tree
  | .text s => .text (rereadText false (column + 2) s)
  | .list items => .list (rereadItems (if level then column else column + 2) items)
  | .object members => .object (rereadMembers (column + 2) members)
  | t => t

def rereadItems (column : Nat) : List Tree → List Tree
  | [] => []
  | item :: items => reread column false item :: rereadItems column items

def rereadMembers (column : Nat) : List (String × Tree) → List (String × Tree)
  | [] => []
  | (name, t) :: members =>
      (rereadText (isSimpleName name) (column + 2) name, reread column (isSimpleName name) t) ::
        rereadMembers column members

end

def IsTextNode (nodes : Nodes) (n : Nat) (s : String) : Prop :=
  ∃ start, nodes[n]? = some ⟨.text, .scalar (Codes.ofChars s.toList), start⟩

mutual

/-- The node with a number and those behind it represent a document. -/
def Represents (nodes : Nodes) (n : Nat) : Tree → Prop
  | .text s => IsTextNode nodes n s
  | .list items => ∃ ns start, nodes[n]? = some ⟨.sequence, .sequence ns, start⟩
      ∧ RepresentsItems nodes n ns items
  | .object members => ∃ es start, nodes[n]? = some ⟨.mapping, .mapping es, start⟩
      ∧ RepresentsMembers nodes n es members
  | _ => False

def RepresentsItems (nodes : Nodes) (n : Nat) : List Nat → List Tree → Prop
  | ns, [] => ns = []
  | ns, item :: items =>
      ∃ m ns', ns = m :: ns' ∧ n < m ∧ Represents nodes m item ∧ RepresentsItems nodes n ns' items

def RepresentsMembers (nodes : Nodes) (n : Nat) :
    List (Nat × Nat) → List (String × Tree) → Prop
  | es, [] => es = []
  | es, (name, t) :: members =>
      ∃ k m es', es = (k, m) :: es' ∧ n < k ∧ n < m ∧ IsTextNode nodes k name
        ∧ Represents nodes m t ∧ RepresentsMembers nodes n es' members

end

mutual

theorem Represents.of_agree {nodes nodes' : Nodes} : ∀ {t : Tree} {n : Nat},
    Represents nodes n t → (∀ i node, n ≤ i → nodes[i]? = some node → nodes'[i]? = some node) →
      Represents nodes' n t
  | .text s, n, h, hagree => by
      rw [Represents] at h ⊢
      rcases h with ⟨start, h⟩
      exact ⟨start, hagree n _ (Nat.le_refl n) h⟩
  | .list items, n, h, hagree => by
      rw [Represents] at h ⊢
      rcases h with ⟨ns, start, h, hitems⟩
      exact ⟨ns, start, hagree n _ (Nat.le_refl n) h,
        hitems.of_agree fun i node hi => hagree i node (Nat.le_of_lt hi)⟩
  | .object members, n, h, hagree => by
      rw [Represents] at h ⊢
      rcases h with ⟨es, start, h, hmembers⟩
      exact ⟨es, start, hagree n _ (Nat.le_refl n) h,
        hmembers.of_agree fun i node hi => hagree i node (Nat.le_of_lt hi)⟩
  | .null, _, h, _ => by simp only [Represents] at h
  | .bool _, _, h, _ => by simp only [Represents] at h
  | .int _, _, h, _ => by simp only [Represents] at h
  | .float _, _, h, _ => by simp only [Represents] at h

theorem RepresentsItems.of_agree {nodes nodes' : Nodes} : ∀ {items : List Tree} {n : Nat}
    {ns : List Nat}, RepresentsItems nodes n ns items →
      (∀ i node, n < i → nodes[i]? = some node → nodes'[i]? = some node) →
        RepresentsItems nodes' n ns items
  | [], _, _, h, _ => h
  | item :: items, n, ns, h, hagree => by
      rw [RepresentsItems] at h ⊢
      rcases h with ⟨m, ns', rfl, hm, hitem, hitems⟩
      exact ⟨m, ns', rfl, hm,
        hitem.of_agree fun i node hi => hagree i node (Nat.lt_of_lt_of_le hm hi),
        hitems.of_agree hagree⟩

theorem RepresentsMembers.of_agree {nodes nodes' : Nodes} : ∀ {members : List (String × Tree)}
    {n : Nat} {es : List (Nat × Nat)}, RepresentsMembers nodes n es members →
      (∀ i node, n < i → nodes[i]? = some node → nodes'[i]? = some node) →
        RepresentsMembers nodes' n es members
  | [], _, _, h, _ => h
  | (name, t) :: members, n, es, h, hagree => by
      rw [RepresentsMembers] at h ⊢
      rcases h with ⟨k, m, es', rfl, hk, hm, ⟨start, hname⟩, hmember, hmembers⟩
      exact ⟨k, m, es', rfl, hk, hm, ⟨start, hagree k _ hk hname⟩,
        hmember.of_agree fun i node hi => hagree i node (Nat.lt_of_lt_of_le hm hi),
        hmembers.of_agree hagree⟩

end

/-!
## Nodes that are added
-/

/-- Nodes in front of which nothing has changed but the end. -/
structure Extends (nodes nodes' : Nodes) : Prop where
  size_le : nodes.size ≤ nodes'.size
  agree : ∀ i < nodes.size, nodes'[i]? = nodes[i]?

theorem Extends.refl (nodes : Nodes) : Extends nodes nodes where
  size_le := Nat.le_refl _
  agree := fun _ _ => rfl

theorem Extends.trans {a b c : Nodes} (h : Extends a b) (h' : Extends b c) : Extends a c where
  size_le := Nat.le_trans h.size_le h'.size_le
  agree := by
    intro i hi
    rw [h'.agree i (Nat.lt_of_lt_of_le hi h.size_le), h.agree i hi]

theorem extends_push (nodes : Nodes) (node : Node) : Extends nodes (nodes.push node) where
  size_le := by
    rw [Array.size_push]
    exact Nat.le_succ _
  agree := by
    intro i hi
    rw [Array.getElem?_push, if_neg (Nat.ne_of_lt hi)]

theorem Extends.agree_some {nodes nodes' : Nodes} (h : Extends nodes nodes') {i : Nat}
    {node : Node} (hi : nodes[i]? = some node) : nodes'[i]? = some node := by
  have hlt := (Array.getElem?_eq_some_iff.mp hi).1
  rw [h.agree i hlt, hi]

section Fill

variable {nodes nodes' : Nodes} {node : Node}

theorem getElem?_setContent_self (h : Extends (nodes.push node) nodes') (content : Content) :
    (nodes'.setContent nodes.size content)[nodes.size]? =
      some { node with content := content } := by
  have hnode : nodes'[nodes.size]? = some node := h.agree_some (by simp)
  rw [Nodes.setContent, Array.getElem?_modify, if_pos rfl, hnode]
  rfl

theorem getElem?_setContent_of_ne {n i : Nat} (hne : n ≠ i) (content : Content) :
    (Nodes.setContent nodes' n content)[i]? = nodes'[i]? := by
  rw [Nodes.setContent, Array.getElem?_modify, if_neg hne]

theorem extends_setContent (h : Extends (nodes.push node) nodes') (content : Content) :
    Extends nodes (nodes'.setContent nodes.size content) where
  size_le := by
    rw [Nodes.setContent, Array.size_modify]
    exact ((extends_push nodes node).trans h).size_le
  agree := by
    intro i hi
    rw [getElem?_setContent_of_ne (Nat.ne_of_gt hi)]
    exact ((extends_push nodes node).trans h).agree i hi

end Fill

/-!
## Reading
-/

theorem scalarTag_scalarText (isKey : Bool) (indent : Nat) (s : String) :
    NodeReader.scalarTag none (scalarText isKey indent s) = .text := by
  rw [NodeReader.scalarTag, scalarText]
  dsimp only
  split
  next hplain =>
    have hstyle := beq_iff_eq.mp hplain
    have hs : rereadText isKey indent s = s := by
      rw [rereadText, hstyle]
    rw [hs, Codes.text?_ofChars, String.ofList_toList]
    exact (choose_plain hstyle).1
  next => rfl

namespace NodeReader

section Steps

variable {fuel : Nat} {position : Position} {r : NodeReader} {token : Token} {more : List Token}

theorem readNode_scalar {content : ScalarText} (htokens : r.tokens = token :: more)
    (hkind : token.kind = .scalar content) :
    readNode (fuel + 1) position r =
      .ok (r.drop.add none ⟨scalarTag none content, .scalar content.codes, token.start⟩) := by
  have hpeek : r.peek = .ok token := by rw [peek, htokens]
  rw [readNode, hpeek]
  simp only [bind, Except.bind, hkind, properties, hpeek, pure, Except.pure, tagName, checkAnchor,
    Option.getD_none]

theorem readNode_indentless (htokens : r.tokens = token :: more)
    (hkind : token.kind = .blockEntry) :
    readNode (fuel + 1) .blockValue r = (do
      let (n, r) := r.add none ⟨.sequence, .sequence [], token.start⟩
      let (items, r) ← readIndentlessItems fuel r
      return r.fill n (.sequence items)) := by
  have hpeek : r.peek = .ok token := by rw [peek, htokens]
  rw [readNode, hpeek]
  simp only [bind, Except.bind, hkind, properties, hpeek, pure, Except.pure, tagName, checkAnchor,
    Option.getD_none]
  rfl

theorem readNode_sequence (htokens : r.tokens = token :: more)
    (hkind : token.kind = .blockSequenceStart) (hposition : position ≠ .flow) :
    readNode (fuel + 1) position r = (do
      let (n, r) := r.drop.add none ⟨.sequence, .sequence [], token.start⟩
      let (items, r) ← readBlockItems fuel token.start r
      return r.fill n (.sequence items)) := by
  have hpeek : r.peek = .ok token := by rw [peek, htokens]
  rw [readNode, hpeek]
  simp only [bind, Except.bind, hkind, properties, hpeek, pure, Except.pure, tagName, checkAnchor,
    Option.getD_none]
  cases position with
  | flow => exact absurd rfl hposition
  | block => rfl
  | blockValue => rfl

theorem readNode_mapping (htokens : r.tokens = token :: more)
    (hkind : token.kind = .blockMappingStart) (hposition : position ≠ .flow) :
    readNode (fuel + 1) position r = (do
      let (n, r) := r.drop.add none ⟨.mapping, .mapping [], token.start⟩
      let (entries, r) ← readBlockEntries fuel token.start r
      return r.fill n (.mapping entries)) := by
  have hpeek : r.peek = .ok token := by rw [peek, htokens]
  rw [readNode, hpeek]
  simp only [bind, Except.bind, hkind, properties, hpeek, pure, Except.pure, tagName, checkAnchor,
    Option.getD_none]
  cases position with
  | flow => exact absurd rfl hposition
  | block => rfl
  | blockValue => rfl

theorem readOptional_present {absent : TokenKind → Bool} {mark : Mark}
    (htokens : r.tokens = token :: more) (habsent : absent token.kind = false) :
    readOptional fuel position absent mark r = readNode fuel position r := by
  have hkind : r.peekKind = .ok token.kind := by
    rw [peekKind, peek, htokens]
    rfl
  rw [readOptional, hkind]
  simp only [bind, Except.bind, habsent]
  rfl

end Steps

/-- A node after which a reader goes on with some tokens. -/
def Gives (result : Result) (r : NodeReader) (rest : List Token) (t : Tree) : Prop :=
  ∃ nodes, result = .ok (r.nodes.size, { r with tokens := rest, nodes := nodes })
    ∧ Extends r.nodes nodes ∧ Represents nodes r.nodes.size t

theorem exists_head_kinds {t : Tree} (h : t.IsText) (column : Nat) (level : Bool) :
    ∃ kind more, Layout.kinds column level t = kind :: more ∧ kind ≠ .key ∧ kind ≠ .value
      ∧ kind ≠ .blockEnd ∧ (level = false → kind ≠ .blockEntry) := by
  cases h with
  | text s =>
      rw [Layout.kinds]
      exact ⟨_, _, rfl, by rintro ⟨⟩, by rintro ⟨⟩, by rintro ⟨⟩, by rintro _ ⟨⟩⟩
  | @list items hne =>
      rw [Layout.kinds]
      cases level with
      | true =>
          cases items with
          | nil => exact absurd rfl hne
          | cons item items =>
              rw [if_pos rfl, Layout.itemKinds]
              exact ⟨_, _, rfl, by rintro ⟨⟩, by rintro ⟨⟩, by rintro ⟨⟩, by rintro ⟨⟩⟩
      | false =>
          exact ⟨_, _, rfl, by rintro ⟨⟩, by rintro ⟨⟩, by rintro ⟨⟩, by rintro _ ⟨⟩⟩
  | object =>
      rw [Layout.kinds]
      exact ⟨_, _, rfl, by rintro ⟨⟩, by rintro ⟨⟩, by rintro ⟨⟩, by rintro _ ⟨⟩⟩

theorem readOptional_kinds {t : Tree} (h : t.IsText) {column : Nat} {level : Bool} {fuel : Nat}
    {position : Position} {absent : TokenKind → Bool} {mark : Mark} {r : NodeReader}
    {ts rest : List Token} (htokens : r.tokens = ts ++ rest)
    (hkinds : ts.map (·.kind) = Layout.kinds column level t)
    (habsent : ∀ kind, absent kind = true → kind = .key ∨ kind = .value ∨ kind = .blockEnd
      ∨ (level = false ∧ kind = .blockEntry)) :
    readOptional fuel position absent mark r = readNode fuel position r := by
  rcases exists_head_kinds h column level with ⟨kind, more, hhead, hkey, hvalue, hend, hentry⟩
  rw [hhead] at hkinds
  rcases List.map_eq_cons_iff.mp hkinds with ⟨token, ts', rfl, rfl, _⟩
  refine readOptional_present htokens ?_
  rw [Bool.eq_false_iff]
  intro hyes
  rcases habsent _ hyes with h | h | h | ⟨hlevel, h⟩
  · exact hkey h
  · exact hvalue h
  · exact hend h
  · exact hentry hlevel h

theorem readNode_text {r : NodeReader} {ts rest : List Token} {fuel : Nat} {position : Position}
    {isKey : Bool} {indent : Nat} {s : String} (htokens : r.tokens = ts ++ rest)
    (hkinds : ts.map (·.kind) = [.scalar (scalarText isKey indent s)]) (hfuel : 0 < fuel) :
    Gives (readNode fuel position r) r rest (.text (rereadText isKey indent s)) := by
  rcases List.map_eq_singleton_iff.mp hkinds with ⟨token, rfl, hkind⟩
  cases fuel with
  | zero => cases hfuel
  | succ fuel =>
      refine ⟨r.nodes.push ⟨.text, .scalar (Codes.ofChars (rereadText isKey indent s).toList),
        token.start⟩, ?_, extends_push _ _, ?_⟩
      · rw [readNode_scalar htokens hkind, scalarTag_scalarText]
        simp only [add, drop, htokens]
        rfl
      · rw [Represents]
        exact ⟨token.start, by simp⟩

def GivesItems (result : Except Fault (List Nat × NodeReader)) (parent : Nat) (r : NodeReader)
    (rest : List Token) (items : List Tree) : Prop :=
  ∃ ns nodes, result = .ok (ns, { r with tokens := rest, nodes := nodes })
    ∧ Extends r.nodes nodes ∧ RepresentsItems nodes parent ns items

def GivesMembers (result : Except Fault (List (Nat × Nat) × NodeReader)) (parent : Nat)
    (r : NodeReader) (rest : List Token) (members : List (String × Tree)) : Prop :=
  ∃ es nodes, result = .ok (es, { r with tokens := rest, nodes := nodes })
    ∧ Extends r.nodes nodes ∧ RepresentsMembers nodes parent es members

theorem GivesItems.cons {x : Result} {f : NodeReader → Except Fault (List Nat × NodeReader)}
    {parent : Nat} {r : NodeReader} {rest rest' : List Token} {item : Tree} {items : List Tree}
    (hx : Gives x r rest item) (hparent : parent < r.nodes.size)
    (hf : ∀ nodes, parent < nodes.size →
      GivesItems (f { r with tokens := rest, nodes := nodes }) parent
        { r with tokens := rest, nodes := nodes } rest' items) :
    GivesItems (x >>= fun (n, r) => f r >>= fun (ns, r) => pure (n :: ns, r)) parent r rest'
      (item :: items) := by
  rcases hx with ⟨nodes, rfl, hextends, hitem⟩
  rcases hf nodes (Nat.lt_of_lt_of_le hparent hextends.size_le) with
    ⟨ns, nodes', hrest, hextends', hitems⟩
  refine ⟨r.nodes.size :: ns, nodes', ?_, hextends.trans hextends', ?_⟩
  · simp only [bind, Except.bind, hrest]
    rfl
  · rw [RepresentsItems]
    exact ⟨_, _, rfl, hparent, hitem.of_agree fun i node _ hi => hextends'.agree_some hi, hitems⟩

theorem GivesMembers.cons {x : Result} {y : NodeReader → Result}
    {f : NodeReader → Except Fault (List (Nat × Nat) × NodeReader)} {parent : Nat} {r : NodeReader}
    {sign : Token} {rest rest' rest'' : List Token} {name : String} {t : Tree}
    {members : List (String × Tree)} (hx : Gives x r (sign :: rest) (.text name))
    (hparent : parent < r.nodes.size)
    (hy : ∀ nodes, Gives (y { r with tokens := sign :: rest, nodes := nodes })
      { r with tokens := rest, nodes := nodes } rest' t)
    (hf : ∀ nodes, parent < nodes.size →
      GivesMembers (f { r with tokens := rest', nodes := nodes }) parent
        { r with tokens := rest', nodes := nodes } rest'' members) :
    GivesMembers (x >>= fun (k, r) => y r >>= fun (m, r) => f r >>= fun (es, r) =>
      pure ((k, m) :: es, r)) parent r rest'' ((name, t) :: members) := by
  rcases hx with ⟨nodes₁, rfl, hextends₁, hname⟩
  rcases hy nodes₁ with ⟨nodes₂, hvalue, hextends₂, hmember⟩
  have hparent₁ : parent < nodes₁.size := Nat.lt_of_lt_of_le hparent hextends₁.size_le
  rcases hf nodes₂ (Nat.lt_of_lt_of_le hparent₁ hextends₂.size_le) with
    ⟨es, nodes₃, hrest, hextends₃, hmembers⟩
  have hall := hextends₂.trans hextends₃
  refine ⟨(r.nodes.size, nodes₁.size) :: es, nodes₃, ?_, hextends₁.trans hall, ?_⟩
  · simp only [bind, Except.bind, hvalue, hrest]
    rfl
  · rw [Represents] at hname
    rcases hname with ⟨start, hname⟩
    rw [RepresentsMembers]
    exact ⟨_, _, _, rfl, hparent, hparent₁, ⟨start, hall.agree_some hname⟩,
      hmember.of_agree fun i node _ hi => hextends₃.agree_some hi, hmembers⟩

theorem Gives.list {r r' : NodeReader} {rest : List Token} {start : Mark} {items : List Tree}
    {x : Except Fault (List Nat × NodeReader)}
    (hr : r'.nodes = r.nodes.push ⟨.sequence, .sequence [], start⟩)
    (hrest : { r' with tokens := rest, nodes := #[] } = { r with tokens := rest, nodes := #[] })
    (hx : GivesItems x r.nodes.size r' rest items) :
    Gives (x >>= fun (ns, r') => pure (r'.fill r.nodes.size (.sequence ns))) r rest
      (.list items) := by
  rcases hx with ⟨ns, nodes, rfl, hextends, hitems⟩
  rw [hr] at hextends
  refine ⟨nodes.setContent r.nodes.size (.sequence ns), ?_, extends_setContent hextends _, ?_⟩
  · cases r
    cases r'
    cases hrest
    rfl
  · rw [Represents]
    refine ⟨ns, start, getElem?_setContent_self hextends _, ?_⟩
    refine hitems.of_agree fun i node hi hnode => ?_
    rw [getElem?_setContent_of_ne (Nat.ne_of_lt hi)]
    exact hnode

theorem Gives.object {r r' : NodeReader} {rest : List Token} {start : Mark}
    {members : List (String × Tree)} {x : Except Fault (List (Nat × Nat) × NodeReader)}
    (hr : r'.nodes = r.nodes.push ⟨.mapping, .mapping [], start⟩)
    (hrest : { r' with tokens := rest, nodes := #[] } = { r with tokens := rest, nodes := #[] })
    (hx : GivesMembers x r.nodes.size r' rest members) :
    Gives (x >>= fun (es, r') => pure (r'.fill r.nodes.size (.mapping es))) r rest
      (.object members) := by
  rcases hx with ⟨es, nodes, rfl, hextends, hmembers⟩
  rw [hr] at hextends
  refine ⟨nodes.setContent r.nodes.size (.mapping es), ?_, extends_setContent hextends _, ?_⟩
  · cases r
    cases r'
    cases hrest
    rfl
  · rw [Represents]
    refine ⟨es, start, getElem?_setContent_self hextends _, ?_⟩
    refine hmembers.of_agree fun i node hi hnode => ?_
    rw [getElem?_setContent_of_ne (Nat.ne_of_lt hi)]
    exact hnode

theorem readBlockItems_end {fuel : Nat} {start : Mark} {parent : Nat} {r : NodeReader}
    {last : Token} {rest : List Token} (htokens : r.tokens = last :: rest)
    (hkind : last.kind = .blockEnd) :
    GivesItems (readBlockItems (fuel + 1) start r) parent r rest [] := by
  refine ⟨[], r.nodes, ?_, Extends.refl _, ?_⟩
  · rw [readBlockItems, peek, htokens]
    simp only [bind, Except.bind, hkind, drop, htokens]
    rfl
  · rw [RepresentsItems]

theorem readBlockItems_entry {fuel : Nat} {start : Mark} {r : NodeReader} {token : Token}
    {more : List Token} (htokens : r.tokens = token :: more) (hkind : token.kind = .blockEntry) :
    readBlockItems (fuel + 1) start r =
      (readOptional fuel .block (fun kind => kind == .blockEntry || kind == .blockEnd) token.stop
        r.drop >>= fun (n, r) => readBlockItems fuel start r >>= fun (ns, r) =>
          pure (n :: ns, r)) := by
  rw [readBlockItems, peek, htokens]
  simp only [bind, Except.bind, hkind]

theorem readIndentlessItems_end {fuel : Nat} {parent : Nat} {r : NodeReader}
    {last : Token} {rest : List Token} (htokens : r.tokens = last :: rest)
    (hkind : last.kind ≠ .blockEntry) :
    GivesItems (readIndentlessItems (fuel + 1) r) parent r (last :: rest) [] := by
  refine ⟨[], r.nodes, ?_, Extends.refl _, ?_⟩
  · have hne : (last.kind != .blockEntry) = true := bne_iff_ne.mpr hkind
    rw [readIndentlessItems, peek, htokens]
    simp only [bind, Except.bind, hne, ← htokens]
    rfl
  · rw [RepresentsItems]

theorem readIndentlessItems_entry {fuel : Nat} {r : NodeReader} {token : Token}
    {more : List Token} (htokens : r.tokens = token :: more) (hkind : token.kind = .blockEntry) :
    readIndentlessItems (fuel + 1) r =
      (readOptional fuel .block
        (fun kind => kind == .blockEntry || kind == .key || kind == .value || kind == .blockEnd)
        token.stop r.drop >>= fun (n, r) => readIndentlessItems fuel r >>= fun (ns, r) =>
          pure (n :: ns, r)) := by
  rw [readIndentlessItems, peek, htokens]
  simp only [bind, Except.bind, hkind]
  rfl

theorem readBlockEntries_end {fuel : Nat} {start : Mark} {parent : Nat} {r : NodeReader}
    {last : Token} {rest : List Token} (htokens : r.tokens = last :: rest)
    (hkind : last.kind = .blockEnd) :
    GivesMembers (readBlockEntries (fuel + 1) start r) parent r rest [] := by
  refine ⟨[], r.nodes, ?_, Extends.refl _, ?_⟩
  · rw [readBlockEntries, peek, htokens]
    simp only [bind, Except.bind, hkind, drop, htokens]
    rfl
  · rw [RepresentsMembers]

def readValue (fuel : Nat) (r : NodeReader) : Result := do
  let token ← r.peek
  match token.kind with
  | .value =>
      readOptional fuel .blockValue
        (fun kind => kind == .key || kind == .value || kind == .blockEnd) token.stop r.drop
  | _ => return r.addEmpty token.start

theorem readValue_sign {fuel : Nat} {r : NodeReader} {sign : Token} {more : List Token}
    (htokens : r.tokens = sign :: more) (hkind : sign.kind = .value) :
    readValue fuel r =
      readOptional fuel .blockValue
        (fun kind => kind == .key || kind == .value || kind == .blockEnd) sign.stop r.drop := by
  rw [readValue, peek, htokens]
  simp only [bind, Except.bind, hkind]

theorem readBlockEntries_key {fuel : Nat} {start : Mark} {r : NodeReader} {token : Token}
    {more : List Token} (htokens : r.tokens = token :: more) (hkind : token.kind = .key) :
    readBlockEntries (fuel + 1) start r =
      (readOptional fuel .blockValue
        (fun kind => kind == .key || kind == .value || kind == .blockEnd) token.stop r.drop >>=
          fun (k, r) => readValue fuel r >>= fun (m, r) => readBlockEntries fuel start r >>=
            fun (es, r) => pure ((k, m) :: es, r)) := by
  rw [readBlockEntries, peek, htokens]
  simp only [bind, Except.bind, hkind]
  rw [if_neg (by decide), if_neg (by decide)]
  congr 1
  funext v
  simp only [readValue, bind, Except.bind]
  cases v.2.peek <;> rfl

mutual

theorem readNode_kinds : ∀ (t : Tree), t.IsText → ∀ {column : Nat} {level : Bool}
    {position : Position} {fuel : Nat} {r : NodeReader} {ts rest : List Token},
      r.tokens = ts ++ rest → ts.map (·.kind) = Layout.kinds column level t →
        2 * ts.length + 1 ≤ fuel → position ≠ .flow →
          (level = true → position = .blockValue
            ∧ ∃ last more, rest = last :: more ∧ last.kind ≠ .blockEntry) →
            Gives (readNode fuel position r) r rest (reread column level t)
  | .text s, _, column, level, position, fuel, r, ts, rest, htokens, hkinds, hfuel, _, _ => by
      rw [reread]
      rw [Layout.kinds] at hkinds
      exact readNode_text htokens hkinds (Nat.lt_of_lt_of_le (Nat.succ_pos _) hfuel)
  | .list items, h, column, level, position, fuel, r, ts, rest, htokens, hkinds, hfuel,
      hposition, hlevel => by
      cases h with
      | list hne hitems =>
          rcases Nat.exists_eq_add_of_lt (Nat.lt_of_lt_of_le (Nat.succ_pos _) hfuel) with
            ⟨fuel, rfl⟩
          rw [Nat.zero_add] at hfuel ⊢
          rw [reread]
          rw [Layout.kinds] at hkinds
          cases level with
          | true =>
              rcases hlevel rfl with ⟨rfl, last, more, rfl, hlast⟩
              have hentry := hkinds
              cases items with
              | nil => exact absurd rfl hne
              | cons item items =>
                  rw [if_pos rfl, Layout.itemKinds] at hentry
                  rcases List.map_eq_cons_iff.mp hentry with ⟨token, ts', rfl, htoken, _⟩
                  rw [readNode_indentless htokens htoken]
                  refine @Gives.list r (r.add none ⟨.sequence, .sequence [], token.start⟩).2 _
                    token.start _ _ rfl rfl ?_
                  rw [List.length_cons] at hfuel
                  exact readIndentlessItems_kinds (item :: items) hitems htokens hlast hkinds
                    (Nat.le_of_succ_le_succ hfuel) (by omega) (by simp)
          | false =>
              rcases List.map_eq_cons_iff.mp hkinds with ⟨token, ts', rfl, htoken, hts'⟩
              rcases List.map_eq_append_iff.mp hts' with ⟨ts₁, ts₂, rfl, hts₁, hts₂⟩
              rcases List.map_eq_singleton_iff.mp hts₂ with ⟨last, rfl, hlast⟩
              simp only [List.length_cons, List.length_append] at hfuel
              rw [readNode_sequence htokens htoken hposition]
              refine @Gives.list r (r.drop.add none ⟨.sequence, .sequence [], token.start⟩).2 rest
                token.start _ _ rfl rfl ?_
              exact readBlockItems_kinds items hitems (by simp [drop, htokens]) hlast hts₁
                (by omega) (by omega) (by simp [drop])
  | .object members, h, column, level, position, fuel, r, ts, rest, htokens, hkinds, hfuel,
      hposition, _ => by
      cases h with
      | object hne hnames hmembers =>
          rcases Nat.exists_eq_add_of_lt (Nat.lt_of_lt_of_le (Nat.succ_pos _) hfuel) with
            ⟨fuel, rfl⟩
          rw [Nat.zero_add] at hfuel ⊢
          rw [reread]
          rw [Layout.kinds] at hkinds
          rcases List.map_eq_cons_iff.mp hkinds with ⟨token, ts', rfl, htoken, hts'⟩
          rcases List.map_eq_append_iff.mp hts' with ⟨ts₁, ts₂, rfl, hts₁, hts₂⟩
          rcases List.map_eq_singleton_iff.mp hts₂ with ⟨last, rfl, hlast⟩
          simp only [List.length_cons, List.length_append] at hfuel
          rw [readNode_mapping htokens htoken hposition]
          refine @Gives.object r (r.drop.add none ⟨.mapping, .mapping [], token.start⟩).2 rest
            token.start _ _ rfl rfl ?_
          exact readBlockEntries_kinds members hmembers (by simp [drop, htokens]) hlast hts₁
            (by omega) (by omega) (by simp [drop])
  | .null, h, _, _, _, _, _, _, _, _, _, _, _, _ => nomatch h
  | .bool _, h, _, _, _, _, _, _, _, _, _, _, _, _ => nomatch h
  | .int _, h, _, _, _, _, _, _, _, _, _, _, _, _ => nomatch h
  | .float _, h, _, _, _, _, _, _, _, _, _, _, _, _ => nomatch h

theorem readBlockItems_kinds : ∀ (items : List Tree), (∀ t ∈ items, t.IsText) →
    ∀ {column fuel parent : Nat} {start : Mark} {r : NodeReader} {ts rest : List Token}
      {last : Token}, r.tokens = ts ++ last :: rest → last.kind = .blockEnd →
        ts.map (·.kind) = Layout.itemKinds column items → 2 * ts.length ≤ fuel → 0 < fuel →
          parent < r.nodes.size →
            GivesItems (readBlockItems fuel start r) parent r rest (rereadItems column items)
  | [], _, column, fuel, parent, start, r, ts, rest, last, htokens, hlast, hkinds, _, hpos, _ => by
      rw [Layout.itemKinds, List.map_eq_nil_iff] at hkinds
      subst hkinds
      cases fuel with
      | zero => cases hpos
      | succ fuel => exact readBlockItems_end htokens hlast
  | item :: items, hitems, column, fuel, parent, start, r, ts, rest, last, htokens, hlast, hkinds,
      hfuel, hpos, hparent => by
      rw [Layout.itemKinds] at hkinds
      rcases List.map_eq_cons_iff.mp hkinds with ⟨token, ts', rfl, htoken, hts'⟩
      rcases List.map_eq_append_iff.mp hts' with ⟨ts₁, ts₂, rfl, hts₁, hts₂⟩
      have hitem := hitems item List.mem_cons_self
      have hdrop : r.drop.tokens = ts₁ ++ (ts₂ ++ last :: rest) := by
        simp [drop, htokens]
      simp only [List.length_cons, List.length_append] at hfuel
      cases fuel with
      | zero => cases hpos
      | succ fuel =>
          rw [readBlockItems_entry htokens htoken, rereadItems,
            readOptional_kinds hitem hdrop hts₁ (by simp)]
          refine @GivesItems.cons _ _ _ r.drop _ _ _ _
            (readNode_kinds item hitem hdrop hts₁ (by omega) (by decide) (fun h => nomatch h))
            hparent fun nodes hsize => ?_
          exact readBlockItems_kinds items (fun t ht => hitems t (List.mem_cons_of_mem _ ht)) rfl
            hlast hts₂ (by omega) (by omega) hsize

theorem readIndentlessItems_kinds : ∀ (items : List Tree), (∀ t ∈ items, t.IsText) →
    ∀ {column fuel parent : Nat} {r : NodeReader} {ts rest : List Token}
      {last : Token}, r.tokens = ts ++ last :: rest → last.kind ≠ .blockEntry →
        ts.map (·.kind) = Layout.itemKinds column items → 2 * ts.length ≤ fuel → 0 < fuel →
          parent < r.nodes.size →
            GivesItems (readIndentlessItems fuel r) parent r (last :: rest)
              (rereadItems column items)
  | [], _, column, fuel, parent, r, ts, rest, last, htokens, hlast, hkinds, _, hpos, _ => by
      rw [Layout.itemKinds, List.map_eq_nil_iff] at hkinds
      subst hkinds
      cases fuel with
      | zero => cases hpos
      | succ fuel => exact readIndentlessItems_end htokens hlast
  | item :: items, hitems, column, fuel, parent, r, ts, rest, last, htokens, hlast, hkinds,
      hfuel, hpos, hparent => by
      rw [Layout.itemKinds] at hkinds
      rcases List.map_eq_cons_iff.mp hkinds with ⟨token, ts', rfl, htoken, hts'⟩
      rcases List.map_eq_append_iff.mp hts' with ⟨ts₁, ts₂, rfl, hts₁, hts₂⟩
      have hitem := hitems item List.mem_cons_self
      have hdrop : r.drop.tokens = ts₁ ++ (ts₂ ++ last :: rest) := by
        simp [drop, htokens]
      simp only [List.length_cons, List.length_append] at hfuel
      cases fuel with
      | zero => cases hpos
      | succ fuel =>
          rw [readIndentlessItems_entry htokens htoken, rereadItems,
            readOptional_kinds hitem hdrop hts₁ (by
              simp only [Bool.or_eq_true, beq_iff_eq]
              rintro kind (((h | h) | h) | h) <;> simp [h])]
          refine @GivesItems.cons _ _ _ r.drop _ _ _ _
            (readNode_kinds item hitem hdrop hts₁ (by omega) (by decide) (fun h => nomatch h))
            hparent fun nodes hsize => ?_
          exact readIndentlessItems_kinds items (fun t ht => hitems t (List.mem_cons_of_mem _ ht))
            rfl hlast hts₂ (by omega) (by omega) hsize

theorem readBlockEntries_kinds : ∀ (members : List (String × Tree)), (∀ m ∈ members, m.2.IsText) →
    ∀ {column fuel parent : Nat} {start : Mark} {r : NodeReader} {ts rest : List Token}
      {last : Token}, r.tokens = ts ++ last :: rest → last.kind = .blockEnd →
        ts.map (·.kind) = Layout.memberKinds column members → 2 * ts.length ≤ fuel → 0 < fuel →
          parent < r.nodes.size →
            GivesMembers (readBlockEntries fuel start r) parent r rest
              (rereadMembers column members)
  | [], _, column, fuel, parent, start, r, ts, rest, last, htokens, hlast, hkinds, _, hpos, _ => by
      rw [Layout.memberKinds, List.map_eq_nil_iff] at hkinds
      subst hkinds
      cases fuel with
      | zero => cases hpos
      | succ fuel => exact readBlockEntries_end htokens hlast
  | (name, t) :: members, hmembers, column, fuel, parent, start, r, ts, rest, last, htokens, hlast,
      hkinds, hfuel, hpos, hparent => by
      rw [Layout.memberKinds] at hkinds
      rcases List.map_eq_cons_iff.mp hkinds with ⟨token, ts', rfl, htoken, hts'⟩
      rcases List.map_eq_cons_iff.mp hts' with ⟨key, ts', rfl, hkey, hts'⟩
      rcases List.map_eq_cons_iff.mp hts' with ⟨sign, ts', rfl, hsign, hts'⟩
      rcases List.map_eq_append_iff.mp hts' with ⟨ts₁, ts₂, rfl, hts₁, hts₂⟩
      have hmember := hmembers (name, t) List.mem_cons_self
      have hdrop : r.drop.tokens = [key] ++ (sign :: (ts₁ ++ (ts₂ ++ last :: rest))) := by
        simp [drop, htokens]
      simp only [List.length_cons, List.length_append] at hfuel
      cases fuel with
      | zero => cases hpos
      | succ fuel =>
          rw [readBlockEntries_key htokens htoken, rereadMembers,
            readOptional_present hdrop (by rw [hkey]; rfl)]
          refine @GivesMembers.cons _ _ _ _ r.drop sign _ (ts₂ ++ last :: rest) _ _ _ _
            (readNode_text hdrop (congrArg (fun k => [k]) hkey) (by omega)) hparent
            (fun nodes => ?_) fun nodes hsize => ?_
          · rw [readValue_sign rfl hsign, readOptional_kinds hmember rfl hts₁ (by
              simp only [Bool.or_eq_true, beq_iff_eq]
              rintro kind ((h | h) | h) <;> simp [h])]
            refine readNode_kinds t hmember rfl hts₁ (by omega) (by decide) fun _ => ⟨rfl, ?_⟩
            cases members with
            | nil =>
                rw [Layout.memberKinds, List.map_eq_nil_iff] at hts₂
                subst hts₂
                exact ⟨last, rest, rfl, by rw [hlast]; decide⟩
            | cons m members =>
                rw [Layout.memberKinds] at hts₂
                rcases List.map_eq_cons_iff.mp hts₂ with ⟨next, ts₃, rfl, hnext, _⟩
                exact ⟨next, _, rfl, by rw [hnext]; decide⟩
          · exact readBlockEntries_kinds members
              (fun m hm => hmembers m (List.mem_cons_of_mem _ hm)) rfl hlast hts₂ (by omega)
              (by omega) hsize

end

theorem readNode_object {members : List (String × Tree)} (h : ∀ m ∈ members, m.2.IsText)
    {column fuel : Nat} {r : NodeReader} {ts rest : List Token}
    (htokens : r.tokens = ts ++ rest)
    (hkinds : ts.map (·.kind) =
      .blockMappingStart :: (Layout.memberKinds column members ++ [.blockEnd]))
    (hfuel : 2 * ts.length < fuel) :
    Gives (readNode fuel .block r) r rest (.object (rereadMembers column members)) := by
  rcases Nat.exists_eq_add_of_lt (Nat.lt_of_le_of_lt (Nat.zero_le _) hfuel) with ⟨fuel, rfl⟩
  rw [Nat.zero_add] at hfuel ⊢
  rcases List.map_eq_cons_iff.mp hkinds with ⟨token, ts', rfl, htoken, hts'⟩
  rcases List.map_eq_append_iff.mp hts' with ⟨ts₁, ts₂, rfl, hts₁, hts₂⟩
  rcases List.map_eq_singleton_iff.mp hts₂ with ⟨last, rfl, hlast⟩
  simp only [List.length_cons, List.length_append] at hfuel
  rw [readNode_mapping htokens htoken (by decide)]
  refine @Gives.object r (r.drop.add none ⟨.mapping, .mapping [], token.start⟩).2 rest
    token.start _ _ rfl rfl ?_
  exact readBlockEntries_kinds members h (by simp [drop, htokens]) hlast hts₁
    (by omega) (by omega) (by simp [drop])

/-- The tokens of an object are read as a document of it. -/
theorem readStream_object {members : List (String × Tree)} (h : ∀ m ∈ members, m.2.IsText)
    {fuel : Nat} {fault : Fault} {tokens : List Token}
    (hkinds : tokens.map (·.kind) =
      .streamStart :: .blockMappingStart ::
        (Layout.memberKinds 0 members ++ [.blockEnd, .streamEnd]))
    (hfuel : 2 * tokens.length < fuel) :
    ∃ d : Document, readStream fuel ⟨tokens, fault, [], #[], []⟩ = .ok (some d) ∧ d.root = 0
      ∧ Represents d.nodes 0 (.object (rereadMembers 0 members)) := by
  rcases List.map_eq_cons_iff.mp hkinds with ⟨first, ts, rfl, _, hts⟩
  have hsplit : ts.map (·.kind) = (.blockMappingStart :: (Layout.memberKinds 0 members ++
      [.blockEnd])) ++ [.streamEnd] := by
    rw [hts]
    simp
  rcases List.map_eq_append_iff.mp hsplit with ⟨ts₁, ts₂, rfl, hts₁, hts₂⟩
  rcases List.map_eq_singleton_iff.mp hts₂ with ⟨last, rfl, hlast⟩
  rcases List.map_eq_cons_iff.mp hts₁ with ⟨start, ts', hstart, hkind, _⟩
  simp only [List.length_cons, List.length_append] at hfuel
  rcases @readNode_object members h 0 fuel ⟨ts₁ ++ [last], fault, commonHandles, #[], []⟩ ts₁ [last]
    rfl hts₁ (by omega) with ⟨nodes, hnode, _, hrepresents⟩
  refine ⟨⟨nodes, 0⟩, ?_, rfl, hrepresents⟩
  subst hstart
  rw [List.cons_append] at hnode
  have hmore : 0 < fuel := by omega
  cases fuel with
  | zero => cases hmore
  | succ fuel =>
      rw [readStream]
      simp only [peek, bind, Except.bind, List.drop_one, List.tail_cons, List.cons_append, hkind,
        pure, Except.pure, show (TokenKind.blockMappingStart == .streamEnd) = false from rfl,
        show (TokenKind.streamEnd == .documentEnd) = false from rfl, beq_self_eq_true,
        Bool.false_eq_true, if_true, if_false, Bool.false_and, hnode, hlast, readStream.another?]
      rfl

end NodeReader

end Yaml
end TextMate
