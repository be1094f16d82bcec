import TextMate.Proofs.Yaml.Scalar

/-!
# Cutting known text into tokens

Between two tokens the lexer is known by the kinds of the tokens so far and the
columns of the open blocks.  Where it arrives at a token, the blocks that are
deeper have been ended.  What each sign and each form of a scalar adds is stated
for these blocks alone; marks and counters do not matter.
-/

namespace TextMate
namespace Yaml

open Text Pen Cursor

/-!
## Blocks
-/

/-- The kinds of the tokens so far, and the columns of the open blocks, the innermost first. -/
structure Blocks where
  kinds : List TokenKind
  stack : List Int

namespace Blocks

def push (b : Blocks) (kinds : List TokenKind) : Blocks :=
  ⟨b.kinds ++ kinds, b.stack⟩

def closeFrom (column : Int) : List TokenKind → List Int → Blocks
  | kinds, inner :: outer :: stack =>
      if column < inner then closeFrom column (kinds ++ [.blockEnd]) (outer :: stack)
      else ⟨kinds, inner :: outer :: stack⟩
  | kinds, stack => ⟨kinds, stack⟩

def closeTo (b : Blocks) (column : Int) : Blocks :=
  closeFrom column b.kinds b.stack

def top (b : Blocks) : Int :=
  b.stack.headD (-1)

def beginAt (b : Blocks) (kind : TokenKind) (column : Nat) : Blocks :=
  if b.top < column then ⟨b.kinds ++ [kind], column :: b.stack⟩ else b

theorem push_push (b : Blocks) (xs ys : List TokenKind) :
    (b.push xs).push ys = b.push (xs ++ ys) := by
  rw [push, push, push, List.append_assoc]

@[simp] theorem push_nil (b : Blocks) : b.push [] = b := by
  rw [push, List.append_nil]

@[simp] theorem top_push (b : Blocks) (xs : List TokenKind) : (b.push xs).top = b.top := rfl

theorem beginAt_of_lt {b : Blocks} {column : Nat} (h : b.top < column) (kind : TokenKind) :
    b.beginAt kind column = ⟨b.kinds ++ [kind], column :: b.stack⟩ := by
  rw [beginAt, if_pos h]

theorem beginAt_of_le {b : Blocks} {column : Nat} (h : (column : Int) ≤ b.top) (kind : TokenKind) :
    b.beginAt kind column = b := by
  rw [beginAt, if_neg (Int.not_lt.mpr h)]

theorem closeTo_of_le {b : Blocks} {column : Int} (h : b.top ≤ column) : b.closeTo column = b := by
  rcases b with ⟨kinds, stack⟩
  rw [closeTo]
  rcases stack with _ | ⟨inner, _ | ⟨outer, stack⟩⟩
  · rfl
  · rfl
  · have h : inner ≤ column := h
    rw [closeFrom, if_neg (Int.not_lt.mpr h)]

theorem closeTo_begun {b : Blocks} {column : Nat} {k : Int} (hne : b.stack ≠ [])
    (hk : k < column) (kinds : List TokenKind) :
    (Blocks.mk kinds (column :: b.stack)).closeTo k =
      (Blocks.mk (kinds ++ [.blockEnd]) b.stack).closeTo k := by
  rcases b with ⟨kinds', stack⟩
  cases stack with
  | nil => exact absurd rfl hne
  | cons outer stack =>
      show closeFrom k kinds (↑column :: outer :: stack) = _
      rw [closeFrom, if_pos hk]
      rfl

end Blocks

namespace Lexer

def blocks (l : Lexer) : Blocks :=
  ⟨l.ordered.map (·.kind), l.indent :: l.indents⟩

/-- A lexer between two tokens, in front of the rest of a text.  The keys that may have begun are
not required and do not begin on a later line. -/
structure Rests (l : Lexer) (b : Blocks) (rest : List Char) : Prop where
  blocks_eq : l.blocks = b
  count_eq : l.count = l.tokens.length
  level_eq : l.level = 0
  done_eq : l.done = false
  rest_eq : l.cursor.rest = rest
  size_le : rest.length ≤ l.size
  unfinished : .streamEnd ∉ b.kinds
  old : ∀ key ∈ l.keys, key.required = false ∧ key.mark.line ≤ l.cursor.mark.line

/-- A lexer at a column, with no possible key; `allow` tells whether one may begin. -/
structure Stands (l : Lexer) (b : Blocks) (column : Nat) (allow : Bool) (rest : List Char) : Prop
    extends Rests l b rest where
  keys_eq : l.keys = []
  column_eq : l.cursor.mark.column = column
  allow_eq : l.allowKey = allow

theorem blocks_push (l : Lexer) (kind : TokenKind) (start stop : Mark) :
    (l.push kind start stop).blocks = l.blocks.push [kind] := by
  simp [blocks, push, ordered, Blocks.push]

theorem indents_ne_nil (l : Lexer) : l.blocks.stack ≠ [] :=
  List.cons_ne_nil _ _

theorem Stands.unwind {l : Lexer} {b : Blocks} {column : Nat} {allow : Bool} {rest : List Char}
    (h : Stands l b column allow rest) (goal : Int) {outers : List Int}
    (houters : l.indents = outers) :
    Stands (Lexer.unwind goal outers l) (b.closeTo goal) column allow rest := by
  induction outers generalizing l b with
  | nil =>
      have hclose : b.closeTo goal = b := by
        rw [← h.blocks_eq, blocks, houters]
        rfl
      rw [hclose]
      exact h
  | cons outer outers ih =>
      rw [Lexer.unwind]
      have hclose : b.closeTo goal =
          Blocks.closeFrom goal b.kinds (l.indent :: outer :: outers) := by
        rw [← h.blocks_eq, blocks, houters]
        rfl
      rw [hclose, Blocks.closeFrom]
      split
      · have hnext : Stands
            { l.push .blockEnd l.cursor.mark l.cursor.mark with indent := outer, indents := outers }
            ⟨b.kinds ++ [.blockEnd], outer :: outers⟩ column allow rest :=
          { h with
            blocks_eq := by
              rw [← h.blocks_eq]
              simp [blocks, push, ordered]
            count_eq := congrArg (· + 1) h.count_eq
            unfinished := by simpa using h.unfinished }
        exact ih hnext rfl
      · rw [← houters]
        have hb : b = ⟨b.kinds, l.indent :: l.indents⟩ := by
          rw [← h.blocks_eq]
          rfl
        rw [← hb]
        exact h

theorem Stands.unwindTo {l : Lexer} {b : Blocks} {column : Nat} {allow : Bool} {rest : List Char}
    (h : Stands l b column allow rest) (goal : Int) :
    Stands (l.unwindTo goal) (b.closeTo goal) column allow rest := by
  have hflow : l.inFlow = false := by
    rw [inFlow, h.level_eq]
    rfl
  rw [Lexer.unwindTo, hflow, if_neg Bool.false_ne_true]
  exact h.unwind goal rfl

/-!
## In front of a token
-/

theorem Rests.dropStaleKeys {l : Lexer} {b : Blocks} {rest : List Char} (h : Rests l b rest) :
    ∃ keys, l.dropStaleKeys = .ok { l with keys := keys } ∧ Rests { l with keys := keys } b rest
      ∧ ∀ key ∈ keys, key ∈ l.keys ∧ key.mark.line = l.cursor.mark.line := by
  rw [Lexer.dropStaleKeys]
  dsimp only
  split
  next key hkey =>
    have hmem := List.mem_of_find?_eq_some hkey
    have hstale := List.find?_some hkey
    rw [(h.old key hmem).1, Bool.and_false] at hstale
    cases hstale
  next =>
    refine ⟨_, rfl, { h with old := ?_ }, ?_⟩
    · intro key hkey
      exact h.old key (List.mem_filter.mp hkey).1
    · intro key hkey
      rw [List.mem_filter] at hkey
      refine ⟨hkey.1, ?_⟩
      simp only [Bool.not_eq_true', Bool.or_eq_false_iff, bne_eq_false_iff_eq] at hkey
      exact hkey.2.1

theorem skipToToken_blanks {l : Lexer} {n : Nat} {rest : List Char} (hrest : StartsToken rest)
    (hl : l.cursor.rest = List.replicate n ' ' ++ rest) (fuel : Nat) :
    skipToToken (fuel + 1) l = { l with cursor := l.cursor.skip n } := by
  have hafter := rest_skip_append hl
  rw [List.length_replicate] at hafter
  rw [skipToToken, skipBlanks_replicate hl hrest.head_ne_blank, peek_skip hafter,
    beq_false_of_ne hrest.ne_sharp, if_neg Bool.false_ne_true, peek_skip hafter, hrest.not_break,
    if_neg Bool.false_ne_true]

theorem skipToToken_newLine {l : Lexer} {n : Nat} {rest : List Char} (hrest : StartsToken rest)
    (hflow : l.inFlow = false) (hl : l.cursor.rest = lineStart n ++ rest) (fuel : Nat) :
    skipToToken (fuel + 2) l = { l with cursor := l.cursor.skip (n + 1), allowKey := true } := by
  have hblanks : l.cursor.skipBlanks = l.cursor := by
    refine @skipBlanks_replicate 0 _ l.cursor hl ?_
    rintro ch ⟨⟩
    decide
  rw [skipToToken, hblanks, peek_cons hl, show ('\n' == '#') = false from rfl,
    if_neg Bool.false_ne_true, peek_cons hl, if_pos (show isBreak '\n' = true from rfl),
    lineBreak_lineFeed hl, hflow, skipToToken_blanks hrest (rest_next_cons hl)]
  simp only [Bool.not_false, Bool.or_true]
  rfl

/-- A lexer whose next token begins at a column, behind space: what stands there once the space
has been read and the deeper blocks have been ended. -/
structure Arrives (l : Lexer) (b : Blocks) (column : Nat) (allow : Bool) (rest : List Char) :
    Prop where
  done_eq : l.done = false
  unfinished : .streamEnd ∉ l.blocks.kinds
  length_le : rest.length ≤ l.cursor.rest.length
  exists_stands : ∃ l', (skipToToken l.fuel l).dropStaleKeys = .ok l'
    ∧ l'.cursor.mark.column = column ∧ Stands (l'.unwindTo column) b column allow rest

theorem Stands.dropStaleKeys {l : Lexer} {b : Blocks} {column : Nat} {allow : Bool}
    {rest : List Char} (h : Stands l b column allow rest) : l.dropStaleKeys = .ok l := by
  have hl : { l with keys := [] } = l := by rw [← h.keys_eq]
  rw [Lexer.dropStaleKeys, h.keys_eq]
  exact congrArg Except.ok hl

theorem Stands.arrives {l : Lexer} {b : Blocks} {column n : Nat} {allow : Bool} {rest : List Char}
    (h : Stands l b column allow (List.replicate n ' ' ++ rest)) (hrest : StartsToken rest) :
    Arrives l (b.closeTo (column + n : Nat)) (column + n) allow rest := by
  have hafter := rest_skip_append h.rest_eq
  have hmark := mark_skip_of_takesColumn (fun _ => takesColumn_of_mem_replicate) h.rest_eq
  rw [List.length_replicate] at hafter hmark
  have hsize := h.size_le
  rw [List.length_append] at hsize
  have hstands : Stands { l with cursor := l.cursor.skip n } b (column + n) allow rest :=
    { h with
      rest_eq := hafter
      size_le := by
        show rest.length ≤ l.size
        omega
      old := by
        intro key hkey
        have hkey : key ∈ l.keys := hkey
        rw [h.keys_eq] at hkey
        cases hkey
      column_eq := by
        rw [← h.column_eq]
        exact congrArg Mark.column hmark }
  refine ⟨h.done_eq, h.blocks_eq ▸ h.unfinished, ?_, _, ?_, hstands.column_eq,
    hstands.unwindTo _⟩
  · rw [h.rest_eq, List.length_append]
    omega
  · rw [fuel, skipToToken_blanks hrest h.rest_eq]
    exact hstands.dropStaleKeys

theorem Rests.arrives {l : Lexer} {b : Blocks} {n : Nat} {rest : List Char}
    (h : Rests l b (lineStart n ++ rest)) (hrest : StartsToken rest) :
    Arrives l (b.closeTo n) n true rest := by
  have hafter := rest_skip_append h.rest_eq
  have hmark := mark_skip_newLine h.rest_eq
  rw [length_lineStart] at hafter
  have hsize := h.size_le
  rw [List.length_append, length_lineStart] at hsize
  have hflow : l.inFlow = false := by
    rw [inFlow, h.level_eq]
    rfl
  have hrests : Rests { l with cursor := l.cursor.skip (n + 1), allowKey := true } b rest :=
    { h with
      rest_eq := hafter
      size_le := by
        show rest.length ≤ l.size
        omega
      old := by
        intro key hkey
        have hold := h.old key hkey
        refine ⟨hold.1, ?_⟩
        rw [hmark]
        exact Nat.le_succ_of_le hold.2 }
  rcases hrests.dropStaleKeys with ⟨keys, hdrop, _, hkeys⟩
  have hnil : keys = [] := by
    refine List.eq_nil_iff_forall_not_mem.mpr fun key hkey => ?_
    rcases hkeys key hkey with ⟨hmem, hline⟩
    have hold := (h.old key hmem).2
    rw [hmark] at hline
    simp only at hline
    omega
  subst hnil
  have hstands : Stands
      { l with cursor := l.cursor.skip (n + 1), allowKey := true, keys := [] } b n true rest :=
    { hrests with
      old := by
        rintro key ⟨⟩
      keys_eq := rfl
      column_eq := congrArg Mark.column hmark
      allow_eq := rfl }
  refine ⟨h.done_eq, h.blocks_eq ▸ h.unfinished, ?_, _, ?_, hstands.column_eq,
    hstands.unwindTo _⟩
  · rw [h.rest_eq, List.length_append]
    omega
  · have hfuel : l.fuel = l.size - 1 + 2 := by
      rw [fuel]
      omega
    rw [hfuel, skipToToken_newLine hrest hflow h.rest_eq]
    exact hdrop

theorem Arrives.step {l : Lexer} {b : Blocks} {column : Nat} {allow : Bool} {rest : List Char}
    (h : Arrives l b column allow rest) :
    ∃ l', Stands l' b column allow rest ∧ l.step = l'.token >>= Lexer.dropStaleKeys := by
  rcases h.exists_stands with ⟨l', hspace, hcolumn, hstands⟩
  refine ⟨_, hstands, ?_⟩
  rw [Lexer.step]
  simp only [hspace, bind, Except.bind, hcolumn]

/-!
## Signs
-/

section Signs

variable {l : Lexer} {b : Blocks} {column : Nat} {allow : Bool} {rest : List Char}

theorem Stands.inFlow_eq (h : Stands l b column allow rest) : l.inFlow = false := by
  rw [inFlow, h.level_eq]
  rfl

theorem Stands.dropKey (h : Stands l b column allow rest) : l.dropKey = .ok l := by
  have hl : { l with keys := [] } = l := by rw [← h.keys_eq]
  rw [Lexer.dropKey, h.keys_eq]
  exact congrArg Except.ok hl

theorem Stands.push (h : Stands l b column allow rest) {kind : TokenKind}
    (hkind : kind ≠ .streamEnd) (start stop : Mark) :
    Stands (l.push kind start stop) (b.push [kind]) column allow rest :=
  { h with
    blocks_eq := by rw [blocks_push, h.blocks_eq]
    count_eq := congrArg (· + 1) h.count_eq
    unfinished := by simpa [Blocks.push] using ⟨h.unfinished, hkind.symm⟩ }

theorem Stands.top_eq (h : Stands l b column allow rest) : b.top = l.indent := by
  rw [← h.blocks_eq]
  rfl

theorem Stands.beginBlock (h : Stands l b column allow rest) {kind : TokenKind}
    (hkind : kind ≠ .streamEnd) (at' : Nat) (m : Mark) :
    Stands (if (l.beginBlock at').2 then (l.beginBlock at').1.push kind m m
      else (l.beginBlock at').1) (b.beginAt kind at') column allow rest := by
  rw [Lexer.beginBlock, Blocks.beginAt, h.top_eq]
  split
  · have hbegun : Stands { l with indent := (at' : Int), indents := l.indent :: l.indents }
        ⟨b.kinds, at' :: b.stack⟩ column allow rest :=
      { h with
        blocks_eq := by
          rw [← h.blocks_eq]
          rfl }
    exact hbegun.push hkind m m
  · exact h

theorem Stands.beginBlockHere (h : Stands l b column true rest) (kind : TokenKind)
    (hkind : kind ≠ .streamEnd) (refusal : Problem) :
    ∃ l', l.beginBlockHere kind refusal = .ok l'
      ∧ Stands l' (b.beginAt kind column) column true rest := by
  refine ⟨_, ?_, h.beginBlock hkind column l.cursor.mark⟩
  rw [Lexer.beginBlockHere, h.inFlow_eq, h.allow_eq, ← h.column_eq]
  rfl

theorem Stands.take {ch : Char} (h : Stands l b column allow (ch :: rest)) (hch : TakesColumn ch)
    (kind : TokenKind) (hkind : kind ≠ .streamEnd) (allow' : Bool) :
    Stands { l.take kind 1 with allowKey := allow' } (b.push [kind]) (column + 1) allow' rest := by
  have hpush := h.push hkind l.cursor.mark (l.cursor.skip 1).mark
  have hsize := h.size_le
  exact { hpush with
    rest_eq := rest_next_cons h.rest_eq
    size_le := Nat.le_of_succ_le hsize
    old := by
      intro key hkey
      have hkey : key ∈ l.keys := hkey
      rw [h.keys_eq] at hkey
      cases hkey
    column_eq := by
      rw [← h.column_eq]
      exact congrArg Mark.column (mark_next_of_takesColumn h.rest_eq hch)
    allow_eq := rfl }

theorem peek_sign {c : Cursor} {ch : Char} (h : c.rest = ch :: rest)
    (hspace : isSpaceOrEnd (rest.headD endMark) = true) :
    c.peek = ch ∧ isSpaceOrEnd (c.peekAt 1) = true ∧ c.atMarker '-' = false
      ∧ c.atMarker '.' = false := by
  have hnext : c.peekAt 1 = rest.headD endMark := by
    rw [peekAt, h]
    cases rest <;> rfl
  have hmarker : ∀ marker : Char, isSpaceOrEnd marker = false →
      c.atMarker marker = false := by
    intro marker hmarker
    have hne : (rest.headD endMark == marker) = false := by
      refine beq_false_of_ne ?_
      rintro rfl
      rw [hspace] at hmarker
      cases hmarker
    rw [atMarker, hnext, hne]
    simp
  exact ⟨peek_cons h, hnext ▸ hspace, hmarker '-' rfl, hmarker '.' rfl⟩

theorem Arrives.blockEntry (h : Arrives l b column true ('-' :: rest))
    (hspace : isSpaceOrEnd (rest.headD endMark) = true) :
    ∃ l', l.step = .ok l'
      ∧ Stands l' ((b.beginAt .blockSequenceStart column).push [.blockEntry]) (column + 1) true
        rest := by
  rcases h.step with ⟨l₀, hstands, hstep⟩
  rcases hstands.beginBlockHere .blockSequenceStart (by decide) .noSequenceEntry with
    ⟨l₁, hbegin, hbegun⟩
  have htaken := hbegun.take (by constructor <;> decide) .blockEntry (by decide) true
  have htoken : l₀.token = l₀.blockEntry := by
    rcases peek_sign hstands.rest_eq hspace with ⟨hpeek, hnext, hdashes, hpoints⟩
    simp [Lexer.token, hpeek, hnext, hdashes, hpoints, endMark]
  refine ⟨_, ?_, htaken⟩
  rw [hstep, htoken, Lexer.blockEntry, hbegin]
  simp only [bind, Except.bind, hbegun.dropKey]
  exact htaken.dropStaleKeys

theorem Arrives.key (h : Arrives l b column true ('?' :: rest))
    (hspace : isSpaceOrEnd (rest.headD endMark) = true) :
    ∃ l', l.step = .ok l'
      ∧ Stands l' ((b.beginAt .blockMappingStart column).push [.key]) (column + 1) true rest := by
  rcases h.step with ⟨l₀, hstands, hstep⟩
  rcases hstands.beginBlockHere .blockMappingStart (by decide) .noMappingKey with
    ⟨l₁, hbegin, hbegun⟩
  have htaken := hbegun.take (by constructor <;> decide) .key (by decide) true
  have htoken : l₀.token = l₀.key := by
    rcases peek_sign hstands.rest_eq hspace with ⟨hpeek, hnext, hdashes, hpoints⟩
    simp [Lexer.token, hpeek, hnext, hdashes, hpoints, endMark]
  refine ⟨_, ?_, htaken⟩
  rw [hstep, htoken, Lexer.key, hbegin]
  simp only [bind, Except.bind, hbegun.dropKey, hbegun.inFlow_eq]
  exact htaken.dropStaleKeys

theorem Arrives.value (h : Arrives l b column true (':' :: rest))
    (hspace : isSpaceOrEnd (rest.headD endMark) = true) :
    ∃ l', l.step = .ok l'
      ∧ Stands l' ((b.beginAt .blockMappingStart column).push [.value]) (column + 1) true rest := by
  rcases h.step with ⟨l₀, hstands, hstep⟩
  rcases hstands.beginBlockHere .blockMappingStart (by decide) .noMappingValue with
    ⟨l₁, hbegin, hbegun⟩
  have htaken := hbegun.take (by constructor <;> decide) .value (by decide) true
  have htoken : l₀.token = l₀.value := by
    rcases peek_sign hstands.rest_eq hspace with ⟨hpeek, hnext, hdashes, hpoints⟩
    simp [Lexer.token, hpeek, hnext, hdashes, hpoints, endMark]
  refine ⟨_, ?_, htaken⟩
  rw [hstep, htoken, Lexer.value, hstands.keys_eq]
  simp only [List.find?_nil, hbegin, bind, Except.bind, hbegun.dropKey, hbegun.inFlow_eq]
  exact htaken.dropStaleKeys

end Signs

/-!
## Scalars
-/

section Scalars

variable {l : Lexer} {b : Blocks} {column : Nat} {allow : Bool} {rest : List Char}

def startedKeys (l : Lexer) : List PossibleKey :=
  if l.allowKey then
    [⟨l.level, l.count, l.indent == (l.cursor.mark.column : Int), l.cursor.mark⟩]
  else []

theorem Stands.saveKey (h : Stands l b column allow rest) :
    l.saveKey = .ok { l with keys := l.startedKeys } := by
  rw [Lexer.saveKey]
  split
  next hallow =>
    have hkeys : l.startedKeys = [] := by
      rw [startedKeys, if_neg (by simpa using hallow)]
    rw [hkeys, ← h.keys_eq]
    rfl
  next hallow =>
    have hkeys : l.startedKeys =
        [⟨l.level, l.count, l.indent == (l.cursor.mark.column : Int), l.cursor.mark⟩] := by
      rw [startedKeys, if_pos (by simpa using hallow)]
    rw [hkeys, h.inFlow_eq, h.dropKey]
    simp only [bind, Except.bind, h.keys_eq]
    rfl

theorem Stands.old_startedKeys (h : Stands l b column allow rest) (htop : b.top < column) :
    ∀ key ∈ l.startedKeys, key.required = false ∧ key.mark.line ≤ l.cursor.mark.line := by
  intro key hkey
  rw [startedKeys] at hkey
  split at hkey
  · rw [List.mem_singleton.mp hkey]
    refine ⟨?_, Nat.le_refl _⟩
    rw [h.column_eq, ← h.top_eq]
    exact beq_false_of_ne (Int.ne_of_lt htop)
  · cases hkey

theorem Stands.token_quoted {double : Bool} (h : Stands l b column allow (quoteOf double :: rest)) :
    l.token = l.quotedScalar double := by
  have hpeek := peek_cons h.rest_eq
  cases double <;> simp [Lexer.token, hpeek, quoteOf, endMark, atMarker]

theorem Stands.token_plain {c : Char} (h : Stands l b column allow (c :: rest))
    (hhead : PlainHead c (rest.headD endMark)) (hstarts : StartsToken (c :: rest)) :
    l.token = l.plainScalar := by
  have hpeek : l.cursor.peek = c := peek_cons h.rest_eq
  have hnext : l.cursor.peekAt 1 = rest.headD endMark := by
    rw [peekAt, h.rest_eq]
    cases rest <;> rfl
  have hdashes := @atMarker_eq_false l.cursor '-' (by decide) (h.rest_eq ▸ hstarts.not_dashes)
  have hpoints := @atMarker_eq_false l.cursor '.' (by decide) (h.rest_eq ▸ hstarts.not_points)
  have hend := ne_endMark_of_isSpaceOrEnd hhead.noSpace
  have hplain := hhead.startsPlain
  have hsign : c = '?' ∨ c = ':' ∨ c = '-' → isSpaceOrEnd (rest.headD endMark) ≠ true :=
    fun hc => Bool.eq_false_iff.mp (hhead.goesOn hc)
  have hno := hhead.noIndicator
  generalize rest.headD endMark = next at *
  simp at hno
  have hdash : ¬(c = '-' ∧ isSpaceOrEnd next = true) := fun hc => hsign (by simp [hc.1]) hc.2
  have hmark : ¬(c = '?' ∧ isSpaceOrEnd next = true) := fun hc => hsign (by simp [hc.1]) hc.2
  have hcolon : ¬(c = ':' ∧ isSpaceOrEnd next = true) := fun hc => hsign (by simp [hc.1]) hc.2
  simp [Lexer.token, hpeek, hnext, hdashes, hpoints, h.inFlow_eq, hend, hno, hdash, hmark, hcolon,
    hplain]

def withScalar (l : Lexer) (text : ScalarText) (stop : Mark) (length : Nat) (allow : Bool) :
    Lexer :=
  { ({ l with keys := l.startedKeys }).push (.scalar text) l.cursor.mark stop with
    cursor := l.cursor.skip length, allowKey := allow }

theorem Stands.rests_withScalar {form : List Char} (h : Stands l b column allow (form ++ rest))
    (htop : b.top < column) (text : ScalarText) (stop : Mark) (allow' : Bool) :
    Rests (l.withScalar text stop form.length allow') (b.push [.scalar text]) rest := by
  have hpush := @Stands.push _ _ _ _ _ h (.scalar text) (fun heq => nomatch heq) l.cursor.mark stop
  have hsize := h.size_le
  rw [List.length_append] at hsize
  exact {
    blocks_eq := hpush.blocks_eq
    count_eq := hpush.count_eq
    level_eq := h.level_eq
    done_eq := h.done_eq
    rest_eq := rest_skip_append h.rest_eq
    size_le := Nat.le_trans (Nat.le_add_left _ _) hsize
    unfinished := hpush.unfinished
    old := by
      intro key hkey
      have hold := h.old_startedKeys htop key hkey
      exact ⟨hold.1, Nat.le_trans hold.2 (line_le_skip _ _)⟩ }

theorem Stands.quotedScalar {double : Bool} {inner cs : List Char}
    (h : Stands l b column allow (quoteOf double :: (inner ++ quoteOf double :: rest)))
    (hspells : Spells double inner cs) (hrest : double = true ∨ rest.headD endMark ≠ '\'') :
    ∃ stop, l.token =
      .ok (l.withScalar ⟨Codes.ofChars cs, false⟩ stop (inner.length + 2) false) := by
  have hsize := h.size_le
  rw [List.length_cons, List.length_append] at hsize
  have hscan := @scanQuoted_spells _ _ _ _ hspells hrest l.fuel l.cursor h.rest_eq (by
    rw [fuel]
    omega)
  refine ⟨(l.cursor.skip (inner.length + 2)).mark, ?_⟩
  rw [h.token_quoted, Lexer.quotedScalar, h.saveKey]
  simp only [bind, Except.bind]
  rw [show Lexer.fuel { l with keys := l.startedKeys } = l.fuel from rfl, hscan]
  rfl

theorem Stands.plainScalar {indent n : Nat} {cs form tail : List Char} {broken : Bool}
    (h : Stands l b column allow (form ++ tail)) (hne : cs ≠ [])
    (hallows : Style.allowsPlain cs = true) (hform : PlainForm indent (runs Piece.of cs) form)
    (hcolumn : b.top ≤ column) (hindent : b.top < indent) (hpos : 0 < indent)
    (htail : EndsScalar tail) (hstop : PlainStop (b.top + 1) tail n broken) :
    ∃ stop, l.token =
      .ok (l.withScalar ⟨Codes.ofChars cs, true⟩ stop (form.length + n) broken) := by
  have hstarts := (ScalarForm.plain hne hallows hform).startsToken htail
  rcases hform.exists_head hne hallows htail with ⟨c, more, hcons, hhead, _⟩
  rcases @scanPlain_form _ _ _ hform b.top hindent hpos _ _ _ hstop l.fuel l.cursor h.rest_eq
    (h.column_eq ▸ hcolumn) (Nat.lt_succ_of_le h.size_le) with ⟨stop, hscan⟩
  rw [h.top_eq] at hscan
  refine ⟨stop, ?_⟩
  have htoken : l.token = l.plainScalar := (hcons ▸ h).token_plain hhead (hcons ▸ hstarts)
  rw [htoken, Lexer.plainScalar, h.saveKey]
  simp only [bind, Except.bind]
  rw [show Lexer.fuel { l with keys := l.startedKeys } = l.fuel from rfl,
    show Lexer.inFlow { l with keys := l.startedKeys } = false from h.inFlow_eq, hscan]
  rfl

theorem Stands.plainScalar_newLine {k : Nat} {form tail : List Char}
    (h : Stands l b column allow (form ++ (lineStart k ++ tail))) (hcolumn : b.top < column)
    (text : ScalarText) (stop : Mark) :
    ∃ l', (l.withScalar text stop (form.length + (k + 1)) true).dropStaleKeys = .ok l'
      ∧ Stands l' (b.push [.scalar text]) k true tail := by
  have hlength : form.length + (k + 1) = (form ++ lineStart k).length := by
    rw [List.length_append, length_lineStart]
  have hmark : (l.cursor.skip (form ++ lineStart k).length).mark =
      ⟨(l.cursor.skip form.length).mark.index + 1 + k,
        (l.cursor.skip form.length).mark.line + 1, k⟩ := by
    rw [← hlength, ← skip_skip]
    exact mark_skip_newLine (rest_skip_append h.rest_eq)
  have hstands : Stands l b column allow ((form ++ lineStart k) ++ tail) := by
    rw [List.append_assoc]
    exact h
  rcases (hstands.rests_withScalar hcolumn text stop true).dropStaleKeys with
    ⟨keys, hdrop, hrests, hkeys⟩
  have hnil : keys = [] := by
    refine List.eq_nil_iff_forall_not_mem.mpr fun key hkey => ?_
    rcases hkeys key hkey with ⟨hmem, hline⟩
    have hold := (hstands.old_startedKeys hcolumn key hmem).2
    have hskip := line_le_skip form.length l.cursor
    have hline : key.mark.line = (l.cursor.skip (form ++ lineStart k).length).mark.line := hline
    rw [hmark] at hline
    simp only at hline
    omega
  rw [hlength]
  refine ⟨_, hdrop, { hrests with keys_eq := hnil, column_eq := ?_, allow_eq := rfl }⟩
  exact congrArg Mark.column hmark

theorem Arrives.scalar {indent k : Nat} {form tail : List Char} {text : ScalarText}
    (h : Arrives l b column allow (form ++ (lineStart k ++ tail)))
    (hform : ScalarForm indent form text) (hcolumn : b.top < column) (hindent : b.top < indent)
    (hpos : 0 < indent) (hk : (k : Int) ≤ b.top) (htail : StartsToken tail) :
    ∃ l', l.step = .ok l' ∧ l'.cursor.rest.length < l.cursor.rest.length
      ∧ Arrives l' ((b.push [.scalar text]).closeTo k) k true tail := by
  rcases h.step with ⟨l₀, hstands, hstep⟩
  have hends : EndsScalar (lineStart k ++ tail) := Or.inr rfl
  have hlength := h.length_le
  rw [hstep]
  cases hform with
  | @plain cs form hne hallows hform =>
      rcases hstands.plainScalar hne hallows hform (Int.le_of_lt hcolumn) hindent hpos hends
        (plainStop_newLine (by omega) htail) with ⟨stop, htoken⟩
      rcases hstands.plainScalar_newLine hcolumn ⟨Codes.ofChars cs, true⟩ stop with
        ⟨l', hdrop, hafter⟩
      refine ⟨l', ?_, ?_, @Stands.arrives l' _ k 0 true tail hafter htail⟩
      · rw [htoken]
        exact hdrop
      · rw [hafter.rest_eq]
        simp only [List.length_append, length_lineStart] at hlength
        omega
  | @quoted double inner cs hspells =>
      have hstands' : Stands l₀ b column allow
          (quoteOf double :: (inner ++ quoteOf double :: (lineStart k ++ tail))) := by
        simpa using hstands
      have hquote : (lineStart k ++ tail).headD endMark ≠ '\'' := by
        show '\n' ≠ '\''
        decide
      rcases hstands'.quotedScalar hspells (Or.inr hquote) with ⟨stop, htoken⟩
      have hrests := hstands.rests_withScalar hcolumn ⟨Codes.ofChars cs, false⟩ stop false
      rcases hrests.dropStaleKeys with ⟨keys, hdrop, hafter, _⟩
      rw [List.length_cons, List.length_append, List.length_singleton] at hdrop hafter
      refine ⟨_, ?_, ?_, hafter.arrives htail⟩
      · rw [htoken]
        exact hdrop
      · rw [hafter.rest_eq]
        simp only [List.length_append, List.length_cons, length_lineStart] at hlength ⊢
        omega

end Scalars

end Lexer
end Yaml
end TextMate
