import TextMate.Proofs.Yaml.Lexer
import TextMate.Proofs.Yaml.Charset

/-!
# Reading on

A lexer that reads a printed document either gets through or stops at a key that
is too long.  Steps are put together by what they reach; whether they get through
is one condition for each, and all of them have to hold.
-/

namespace TextMate
namespace Yaml

open Text Pen Cursor

namespace Lexer

/-!
## What a lexer reaches
-/

/-- A lexer that comes out of another one by reading tokens, each of one character or more. -/
inductive Reaches : Lexer → Lexer → Prop where
  | refl (l : Lexer) : Reaches l l
  | step {l m n : Lexer} :
      l.done = false -> l.step = .ok m -> m.cursor.rest.length < l.cursor.rest.length ->
        Reaches m n -> Reaches l n

theorem Reaches.trans {l m n : Lexer} (h : Reaches l m) (h' : Reaches m n) : Reaches l n := by
  induction h with
  | refl l => exact h'
  | step hdone hstep hless _ ih => exact .step hdone hstep hless (ih h')

section Unfolding

-- To compare the two sides, nothing about a single step has to be known.
attribute [local irreducible] Lexer.step

theorem run_succ (l : Lexer) (fuel : Nat) : run (fuel + 1) l =
    if l.done then (l.ordered, none)
    else
      match l.step with
      | .ok l => run fuel l
      | .error fault => (l.certain, some fault) := rfl

end Unfolding

theorem run_ok {l m : Lexer} (hdone : l.done = false) (hstep : l.step = .ok m) (fuel : Nat) :
    run (fuel + 1) l = run fuel m := by
  rw [run_succ, hdone, hstep]
  rfl

theorem run_error {l : Lexer} {fault : Fault} (hdone : l.done = false)
    (hstep : l.step = .error fault) (fuel : Nat) : run (fuel + 1) l = (l.certain, some fault) := by
  rw [run_succ, hdone, hstep]
  rfl

theorem run_done {l : Lexer} (hdone : l.done = true) (fuel : Nat) :
    run (fuel + 1) l = (l.ordered, none) := by
  rw [run_succ, hdone]
  rfl

theorem Reaches.exists_run {l l' : Lexer} (h : Reaches l l') :
    ∃ n, n + l'.cursor.rest.length ≤ l.cursor.rest.length
      ∧ ∀ fuel, run (n + fuel) l = run fuel l' := by
  induction h with
  | refl l =>
      refine ⟨0, by omega, ?_⟩
      intro fuel
      rw [Nat.zero_add]
  | @step l m l' hdone hstep hless _ ih =>
      rcases ih with ⟨n, hn, hrun⟩
      refine ⟨n + 1, by omega, ?_⟩
      intro fuel
      rw [show n + 1 + fuel = n + fuel + 1 by omega, run_ok hdone hstep]
      exact hrun fuel

def Fails (l : Lexer) : Prop :=
  ∃ l' fault, Reaches l l' ∧ l'.done = false ∧ .streamEnd ∉ l'.blocks.kinds
    ∧ l'.step = .error fault

/-- Without the end of the text there is no end among the tokens, and there is a fault. -/
theorem Fails.exists_run {l : Lexer} (h : Fails l) {fuel : Nat}
    (hfuel : l.cursor.rest.length < fuel) :
    ∃ tokens fault, run fuel l = (tokens, some fault) ∧ .streamEnd ∉ tokens.map (·.kind) := by
  rcases h with ⟨l', fault, hreaches, hdone, hunfinished, hstep⟩
  rcases hreaches.exists_run with ⟨n, hn, hrun⟩
  have hcertain : .streamEnd ∉ l'.certain.map (·.kind) := by
    intro hmem
    refine hunfinished ?_
    rw [List.mem_map] at hmem
    rcases hmem with ⟨token, htoken, hkind⟩
    rw [certain] at htoken
    refine List.mem_map.mpr ⟨token, ?_, hkind⟩
    split at htoken
    · exact List.mem_of_mem_take htoken
    · exact htoken
  refine ⟨l'.certain, fault, ?_, hcertain⟩
  rcases Nat.exists_eq_add_of_lt (Nat.lt_of_le_of_lt (Nat.le_of_add_right_le hn) hfuel) with
    ⟨more, rfl⟩
  rw [Nat.add_assoc, hrun, run_error hdone hstep]

/-- A lexer gets through to one with a property if a condition holds, and fails if it does
not. -/
inductive Outcome (fits : Prop) (l : Lexer) (goal : Lexer → Prop) : Prop where
  | passes {l' : Lexer} : fits -> Reaches l l' -> goal l' -> Outcome fits l goal
  | fails : ¬ fits -> Fails l -> Outcome fits l goal

theorem Reaches.fails {l l' : Lexer} (h : Reaches l l') (h' : Fails l') : Fails l := by
  rcases h' with ⟨l'', fault, hreaches, hfault⟩
  exact ⟨l'', fault, h.trans hreaches, hfault⟩

theorem Reaches.outcome {l l' : Lexer} {fits : Prop} {goal : Lexer → Prop} (h : Reaches l l')
    (h' : Outcome fits l' goal) : Outcome fits l goal := by
  cases h' with
  | passes hfits hreaches hgoal => exact .passes hfits (h.trans hreaches) hgoal
  | fails hfits hfails => exact .fails hfits (h.fails hfails)

theorem Outcome.bind {l : Lexer} {fits fits' : Prop} {goal goal' : Lexer → Prop}
    (h : Outcome fits l goal) (h' : ∀ l', goal l' → Outcome fits' l' goal') :
    Outcome (fits ∧ fits') l goal' := by
  cases h with
  | passes hfits hreaches hgoal =>
      cases h' _ hgoal with
      | passes hfits' hreaches' hgoal' =>
          exact .passes ⟨hfits, hfits'⟩ (hreaches.trans hreaches') hgoal'
      | fails hfits' hfails =>
          exact .fails (fun hall => hfits' hall.2) (hreaches.fails hfails)
  | fails hfits hfails => exact .fails (fun hall => hfits hall.1) hfails

theorem Outcome.of_iff {l : Lexer} {fits fits' : Prop} {goal : Lexer → Prop}
    (h : Outcome fits l goal) (hiff : fits ↔ fits') : Outcome fits' l goal := by
  cases h with
  | passes hfits hreaches hgoal => exact .passes (hiff.mp hfits) hreaches hgoal
  | fails hfits hfails => exact .fails (fun h => hfits (hiff.mpr h)) hfails

theorem Arrives.reaches {l l' : Lexer} {b : Blocks} {column : Nat} {allow : Bool}
    {rest : List Char} (h : Arrives l b column allow rest) (hstep : l.step = .ok l')
    (hless : l'.cursor.rest.length < l.cursor.rest.length) : Reaches l l' :=
  .step h.done_eq hstep hless (.refl l')

/-!
## Keys in front of a colon
-/

section Keys

variable {l : Lexer} {b : Blocks} {column : Nat} {allow : Bool} {form rest : List Char}

theorem dropStaleKeys_eq {key : PossibleKey} (hkeys : l.keys = [key])
    (hline : key.mark.line = l.cursor.mark.line) :
    l.dropStaleKeys =
      if 1024 < l.cursor.mark.index - key.mark.index then
        if key.required then .error (l.missingColon key) else .ok { l with keys := [] }
      else .ok l := by
  rw [Lexer.dropStaleKeys, hkeys]
  by_cases hlong : 1024 < l.cursor.mark.index - key.mark.index
  · cases hrequired : key.required <;>
      simp [List.find?, List.filter, hline, hlong, hrequired]
  · have hl : { l with keys := [key] } = l := by rw [← hkeys]
    simp [List.find?, List.filter, hline, hlong, hl]

theorem Stands.startedKeys_eq (h : Stands l b column true rest) :
    l.startedKeys = [⟨l.level, l.count, b.top == (column : Int), l.cursor.mark⟩] := by
  rw [startedKeys, h.allow_eq, if_pos rfl, h.top_eq, h.column_eq]

theorem Stands.mark_withScalar (h : Stands l b column allow (form ++ rest))
    (hform : ∀ c ∈ form, TakesColumn c) :
    (l.cursor.skip form.length).mark =
      ⟨l.cursor.mark.index + form.length, l.cursor.mark.line, column + form.length⟩ := by
  rw [mark_skip_of_takesColumn hform h.rest_eq, h.column_eq]

theorem Stands.dropStaleKeys_withScalar (h : Stands l b column true (form ++ rest))
    (hform : ∀ c ∈ form, TakesColumn c) (text : ScalarText) (stop : Mark) :
    (l.withScalar text stop form.length false).dropStaleKeys =
      if 1024 < form.length then
        if b.top == (column : Int) then
          .error ((l.withScalar text stop form.length false).missingColon
            ⟨l.level, l.count, b.top == (column : Int), l.cursor.mark⟩)
        else .ok { l.withScalar text stop form.length false with keys := [] }
      else .ok (l.withScalar text stop form.length false) := by
  have hmark := h.mark_withScalar hform
  have hkeys : (l.withScalar text stop form.length false).keys =
      [⟨l.level, l.count, b.top == (column : Int), l.cursor.mark⟩] := h.startedKeys_eq
  rw [dropStaleKeys_eq hkeys]
  · show (if 1024 < (l.cursor.skip form.length).mark.index - l.cursor.mark.index then _ else _) = _
    rw [hmark]
    simp
  · show l.cursor.mark.line = (l.cursor.skip form.length).mark.line
    rw [hmark]

theorem unwindTo_of_le {column : Int} (h : l.indent ≤ column) : l.unwindTo column = l := by
  rw [Lexer.unwindTo]
  split
  · rfl
  · cases l.indents with
    | nil => rfl
    | cons outer outers => rw [Lexer.unwind, if_neg (Int.not_lt.mpr h)]

theorem step_sign {ch : Char} (hrest : l.cursor.rest = ch :: rest)
    (hstarts : StartsToken (ch :: rest))
    (hdrop : l.dropStaleKeys = .ok l) (hindent : l.indent ≤ l.cursor.mark.column) :
    l.step = l.token >>= Lexer.dropStaleKeys := by
  have hskip : skipToToken l.fuel l = l := @skipToToken_blanks l 0 _ hstarts hrest _
  rw [Lexer.step, hskip, hdrop]
  show (l.unwindTo l.cursor.mark.column).token >>= Lexer.dropStaleKeys = _
  rw [unwindTo_of_le hindent]

theorem token_colon (hrest : l.cursor.rest = ':' :: rest)
    (hspace : isSpaceOrEnd (rest.headD endMark) = true) : l.token = l.value := by
  rcases peek_sign hrest hspace with ⟨hpeek, hnext, hdashes, hpoints⟩
  simp [Lexer.token, hpeek, hnext, hdashes, hpoints, endMark]

theorem startsToken_colon (rest : List Char) : StartsToken (':' :: rest) :=
  startsToken_cons rfl (by decide) (by decide) (fun h => nomatch h) (by decide)

theorem insert_append {front behind : List Token} (htokens : l.tokens = front ++ behind)
    (hcount : l.count = l.tokens.length) (kind : TokenKind) (mark : Mark) :
    l.insert behind.length kind mark =
      { l with tokens := front ++ ⟨kind, mark, mark⟩ :: behind, count := l.count + 1 } := by
  have hlength : l.count - behind.length = front.length := by
    rw [hcount, htokens, List.length_append]
    omega
  rw [insert, hlength, htokens, List.take_left, List.drop_left]

theorem Stands.insert {front behind : List Token} (h : Stands l b column allow rest)
    (htokens : l.tokens = front ++ behind) {kind : TokenKind} (hkind : kind ≠ .streamEnd)
    (mark : Mark) :
    Stands (l.insert behind.length kind mark)
      ⟨(behind.map (·.kind)).reverse ++ kind :: (front.map (·.kind)).reverse, b.stack⟩
      column allow rest := by
  have hkinds : b.kinds = (behind.map (·.kind)).reverse ++ (front.map (·.kind)).reverse := by
    rw [← h.blocks_eq, blocks, ordered, htokens]
    simp
  have hunfinished := h.unfinished
  rw [hkinds, List.mem_append, not_or] at hunfinished
  rw [insert_append htokens h.count_eq]
  exact { h with
    blocks_eq := by
      rw [← h.blocks_eq, blocks, blocks, ordered]
      simp
    count_eq := by
      show l.count + 1 = (front ++ _ :: behind).length
      rw [h.count_eq, htokens]
      simp
      omega
    unfinished := by
      simp only [List.mem_append, List.mem_cons, not_or]
      exact ⟨hunfinished.1, hkind.symm, hunfinished.2⟩ }

theorem value_of_key {key : PossibleKey} {m : Lexer} (hkeys : l.keys = [key])
    (hlevel : key.level = l.level) (hflow : l.inFlow = false)
    (hm : m = Lexer.insert { l with keys := [] } key.number .key key.mark) :
    l.value = .ok
      { (if (m.beginBlock key.mark.column).2 then
          (m.beginBlock key.mark.column).1.insert key.number .blockMappingStart key.mark
        else (m.beginBlock key.mark.column).1).take .value 1 with allowKey := false } := by
  subst hm
  have hflow' : (Lexer.insert { l with keys := [] } key.number .key key.mark).inFlow = false :=
    hflow
  rw [Lexer.value, hkeys]
  simp only [List.find?, hlevel, beq_self_eq_true, List.filter, bne_self_eq_false, hflow',
    Bool.false_eq_true, if_false]
  rfl

theorem Stands.beginBlock_insert {front behind : List Token} {at' : Nat}
    (h : Stands l b column allow rest) (htokens : l.tokens = front ++ behind) (mark : Mark) :
    Stands (if (l.beginBlock at').2 then
        (l.beginBlock at').1.insert behind.length .blockMappingStart mark
      else (l.beginBlock at').1)
      ((Blocks.beginAt ⟨(behind.map (·.kind)).reverse, b.stack⟩ .blockMappingStart at').push
        (front.map (·.kind)).reverse) column allow rest := by
  have htop : Blocks.top ⟨(behind.map (·.kind)).reverse, b.stack⟩ = l.indent := h.top_eq
  have hkinds : b.kinds = (behind.map (·.kind)).reverse ++ (front.map (·.kind)).reverse := by
    rw [← h.blocks_eq, blocks, ordered, htokens]
    simp
  rw [Lexer.beginBlock, Blocks.beginAt, htop]
  split
  · have hbegun : Stands { l with indent := (at' : Int), indents := l.indent :: l.indents }
        ⟨b.kinds, at' :: b.stack⟩ column allow rest :=
      { h with
        blocks_eq := by
          rw [← h.blocks_eq]
          rfl }
    have hstart : TokenKind.blockMappingStart ≠ .streamEnd := by
      intro heq
      cases heq
    have hinserted := hbegun.insert htokens hstart mark
    rw [Blocks.push, List.append_assoc, List.singleton_append]
    exact hinserted
  · rw [Blocks.push, ← hkinds]
    exact h

theorem Stands.read_withScalar (h : Stands l b column allow (form ++ rest))
    (hform : ∀ c ∈ form, TakesColumn c) (text : ScalarText) (stop : Mark) :
    Stands { l.withScalar text stop form.length false with keys := [] } (b.push [.scalar text])
      (column + form.length) false rest := by
  have hmark := h.mark_withScalar hform
  have hpush := @Stands.push _ _ _ _ _ h (.scalar text) (fun heq => nomatch heq) l.cursor.mark stop
  have hsize := h.size_le
  rw [List.length_append] at hsize
  exact { hpush with
    rest_eq := rest_skip_append h.rest_eq
    size_le := Nat.le_trans (Nat.le_add_left _ _) hsize
    old := by
      rintro key ⟨⟩
    keys_eq := rfl
    column_eq := congrArg Mark.column hmark
    allow_eq := rfl }

theorem Stands.value_withScalar (h : Stands l b column true (form ++ ':' :: rest))
    (hform : ∀ c ∈ form, TakesColumn c) (text : ScalarText) (stop : Mark) :
    ∃ l', (l.withScalar text stop form.length false).value = .ok l'
      ∧ Stands l' ((b.beginAt .blockMappingStart column).push [.key, .scalar text, .value])
        (column + form.length + 1) false rest := by
  have hread := h.read_withScalar hform text stop
  have hkinds : (l.tokens.map (·.kind)).reverse = b.kinds := by
    rw [← h.blocks_eq, blocks, ordered, List.map_reverse]
  have hkeys : (l.withScalar text stop form.length false).keys =
      [⟨l.level, l.tokens.length, b.top == (column : Int), l.cursor.mark⟩] := by
    rw [← h.count_eq]
    exact h.startedKeys_eq
  have hkeyed := @Stands.insert _ _ _ _ _ [⟨.scalar text, l.cursor.mark, stop⟩] l.tokens hread
    rfl .key (by rintro ⟨⟩) l.cursor.mark
  have htokens := congrArg Lexer.tokens (@insert_append
    { l.withScalar text stop form.length false with keys := [] }
    [⟨.scalar text, l.cursor.mark, stop⟩] l.tokens rfl hread.count_eq .key l.cursor.mark)
  have hbegun := @Stands.beginBlock_insert _ _ _ _ _
    [⟨.scalar text, l.cursor.mark, stop⟩, ⟨.key, l.cursor.mark, l.cursor.mark⟩] l.tokens column
    hkeyed htokens l.cursor.mark
  have htaken := hbegun.take (by constructor <;> decide) .value (by rintro ⟨⟩) false
  refine ⟨_, value_of_key hkeys rfl hread.inFlow_eq rfl, ?_⟩
  rw [hkinds, Blocks.push_push] at htaken
  rw [h.column_eq]
  exact htaken

theorem Stands.token_scalar {indent : Nat} {text : ScalarText}
    (h : Stands l b column allow (form ++ ':' :: rest)) (hform : ScalarForm indent form text)
    (htop : b.top ≤ column) (hindent : b.top < indent) (hpos : 0 < indent)
    (hspace : isSpaceOrEnd (rest.headD endMark) = true) :
    ∃ stop, l.token = .ok (l.withScalar text stop form.length false) := by
  cases hform with
  | plain hne hallows hplain =>
      exact h.plainScalar hne hallows hplain htop hindent hpos (Or.inl rfl)
        (plainStop_colon hspace)
  | @quoted double inner cs hspells =>
      have hquoted : Stands l b column allow
          (quoteOf double :: (inner ++ quoteOf double :: (':' :: rest))) := by
        simpa using h
      have hlength : (quoteOf double :: (inner ++ [quoteOf double])).length = inner.length + 2 := by
        simp
      rw [hlength]
      refine hquoted.quotedScalar hspells (Or.inr ?_)
      show ':' ≠ '\''
      decide

theorem Stands.value_error (h : Stands l b column false (':' :: rest)) :
    ∃ fault, l.value = .error fault := by
  refine ⟨.flaw ⟨none, none, .noMappingValue, l.cursor.mark⟩, ?_⟩
  have hbegin : l.beginBlockHere .blockMappingStart .noMappingValue =
      .error (.flaw ⟨none, none, .noMappingValue, l.cursor.mark⟩) := by
    rw [Lexer.beginBlockHere, h.inFlow_eq, h.allow_eq]
    rfl
  rw [Lexer.value, h.keys_eq]
  simp only [List.find?, hbegin]
  rfl

theorem Arrives.simpleKey {indent : Nat} {text : ScalarText}
    (h : Arrives l b column true (form ++ ':' :: rest)) (hform : ScalarForm indent form text)
    (htakes : ∀ c ∈ form, TakesColumn c) (htop : b.top ≤ column) (hindent : b.top < indent)
    (hpos : 0 < indent) (hspace : isSpaceOrEnd (rest.headD endMark) = true) :
    Outcome (form.length ≤ 1024) l fun l' =>
      Stands l' ((b.beginAt .blockMappingStart column).push [.key, .scalar text, .value])
        (column + form.length + 1) false rest := by
  rcases h.step with ⟨l₀, hstands, hstep⟩
  rcases hstands.token_scalar hform htop hindent hpos hspace with ⟨stop, htoken⟩
  have hread := hstands.read_withScalar htakes text stop
  have hdrop := hstands.dropStaleKeys_withScalar htakes text stop
  have hless : (':' :: rest).length < l.cursor.rest.length := by
    have hlength := h.length_le
    have hne : form ≠ [] := by
      cases hform with
      | plain hne hallows hplain =>
          rcases hplain.exists_cons with ⟨c, more, rfl, _⟩
          exact List.cons_ne_nil _ _
      | quoted hspells => exact List.cons_ne_nil _ _
    have hpos := List.length_pos_iff.mpr hne
    rw [List.length_append] at hlength
    omega
  have hbelow : b.top ≤ (column + form.length : Nat) := by omega
  rw [htoken] at hstep
  by_cases hfits : form.length ≤ 1024
  · rw [if_neg (Nat.not_lt.mpr hfits)] at hdrop
    rcases hstands.value_withScalar htakes text stop with ⟨l', hvalue, hvalued⟩
    have hcolon := @step_sign (l₀.withScalar text stop form.length false) _ _ hread.rest_eq
      (startsToken_colon rest) hdrop (hread.top_eq ▸ hread.column_eq ▸ hbelow)
    rw [@token_colon (l₀.withScalar text stop form.length false) _ hread.rest_eq hspace, hvalue]
      at hcolon
    refine .passes hfits (.step h.done_eq (hstep.trans hdrop) ?_ (.step hread.done_eq
      (hcolon.trans hvalued.dropStaleKeys) ?_ (.refl l'))) hvalued
    · exact Nat.lt_of_le_of_lt (Nat.le_of_eq (congrArg List.length hread.rest_eq)) hless
    · rw [hvalued.rest_eq]
      exact Nat.lt_of_lt_of_eq (Nat.lt_succ_self _) (congrArg List.length hread.rest_eq).symm
  · rw [if_pos (Nat.lt_of_not_le hfits)] at hdrop
    refine .fails hfits ?_
    by_cases hcolumn : b.top = column
    · rw [hcolumn, beq_self_eq_true, if_pos rfl] at hdrop
      exact ⟨l, _, .refl l, h.done_eq, h.unfinished, hstep.trans hdrop⟩
    · rw [beq_false_of_ne hcolumn, if_neg Bool.false_ne_true] at hdrop
      rcases hread.value_error with ⟨fault, hvalue⟩
      have hcolon := step_sign hread.rest_eq (startsToken_colon rest) hread.dropStaleKeys
        (hread.top_eq ▸ hread.column_eq ▸ hbelow)
      rw [token_colon hread.rest_eq hspace, hvalue] at hcolon
      refine ⟨_, fault, .step h.done_eq (hstep.trans hdrop) ?_ (.refl _), hread.done_eq,
        hread.blocks_eq ▸ hread.unfinished, hcolon⟩
      exact Nat.lt_of_le_of_lt (Nat.le_of_eq (congrArg List.length hread.rest_eq)) hless

end Keys

/-!
## From the start to the end
-/

theorem stands_start {cs : List Char} :
    Stands (start cs) ⟨[.streamStart], [-1]⟩ 0 true cs where
  blocks_eq := rfl
  count_eq := rfl
  level_eq := rfl
  done_eq := rfl
  rest_eq := rfl
  size_le := Nat.le_refl _
  unfinished := by decide
  old := by
    rintro key ⟨⟩
  keys_eq := rfl
  column_eq := rfl
  allow_eq := rfl

theorem Arrives.streamEnd {l : Lexer} {b : Blocks} {column : Nat} {allow : Bool}
    (h : Arrives l b column allow []) (fuel : Nat) :
    ∃ tokens, run (fuel + 2) l = (tokens, none)
      ∧ tokens.map (·.kind) = (b.closeTo (-1)).kinds ++ [.streamEnd] := by
  rcases h.step with ⟨l₀, hstands, hstep⟩
  have hended := hstands.unwindTo (-1)
  have htoken : l₀.token = l₀.streamEnd := by
    have hpeek : l₀.cursor.peek = endMark := by
      rw [peek, hstands.rest_eq]
      rfl
    rw [Lexer.token]
    simp [hpeek]
  rw [htoken, Lexer.streamEnd, hended.dropKey] at hstep
  generalize l₀.unwindTo (-1) = ended at hstep hended
  refine ⟨(ended.push .streamEnd ended.cursor.mark ended.cursor.mark).ordered, ?_, ?_⟩
  · rw [run_ok h.done_eq hstep, run_done rfl]
    rfl
  · have hkinds := congrArg Blocks.kinds hended.blocks_eq
    rw [← hkinds]
    simp [blocks, ordered, Lexer.push]

/-- A text of characters that a document may contain, without a byte order mark. -/
theorem tokenize_eq {cs : List Char} (hclean : ∀ c ∈ cs, isAcceptable c = true)
    (hstarts : StartsToken cs) : tokenize cs = run (cs.length + 2) (start cs) := by
  have hnone : firstUnacceptable cs = none := by
    have hfind : cs.findIdx? (fun c => !isAcceptable c) = none := by
      rw [List.findIdx?_eq_none_iff]
      intro c hc
      rw [hclean c hc]
      rfl
    rw [firstUnacceptable, hfind]
    rfl
  have hmark : ((start cs).cursor.peek.toNat == 0xFEFF) = false := beq_false_of_ne hstarts.ne_mark
  rw [tokenize, hnone]
  simp only [hmark, Bool.false_eq_true, if_false]

theorem Outcome.tokenize {fits : Prop} {cs : List Char} {b : Blocks} {column : Nat} {allow : Bool}
    (h : Outcome fits (start cs) fun l => Arrives l b column allow [])
    (hclean : ∀ c ∈ cs, isAcceptable c = true) (hstarts : StartsToken cs) :
    (fits ∧ ∃ tokens, tokenize cs = (tokens, none)
        ∧ tokens.map (·.kind) = (b.closeTo (-1)).kinds ++ [.streamEnd])
      ∨ (¬ fits ∧ ∃ tokens fault, tokenize cs = (tokens, some fault)
        ∧ .streamEnd ∉ tokens.map (·.kind)) := by
  rw [tokenize_eq hclean hstarts]
  have hlength : (start cs).cursor.rest.length = cs.length := rfl
  cases h with
  | passes hfits hreaches harrives =>
      rcases hreaches.exists_run with ⟨n, hn, hrun⟩
      rcases Nat.exists_eq_add_of_le (Nat.le_trans (Nat.le_of_add_right_le hn)
        (Nat.le_of_eq hlength)) with ⟨more, hmore⟩
      rcases harrives.streamEnd more with ⟨tokens, hend, hkinds⟩
      refine Or.inl ⟨hfits, tokens, ?_, hkinds⟩
      rw [hmore, Nat.add_assoc, hrun]
      exact hend
  | fails hfits hfails =>
      exact Or.inr ⟨hfits, hfails.exists_run (by omega)⟩

end Lexer
end Yaml
end TextMate
