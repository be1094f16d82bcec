import TextMate.Proofs.Yaml.Faults
import TextMate.Yaml.Node.OfTokens

/-!
# Reading nodes from any tokens

A reader only ever drops tokens from the front, and never the end of the stream.
As long as that end is there to be found, what a reader fails with is a flaw: the
fuel is twice the number of tokens, of which every second call of itself takes
one.
-/

namespace TextMate
namespace Yaml

def HasEnd (tokens : List Token) : Prop :=
  .streamEnd ∈ tokens.map (·.kind)

theorem HasEnd.length_pos {tokens : List Token} (h : HasEnd tokens) : 0 < tokens.length := by
  cases tokens with
  | nil => cases h
  | cons token tokens => exact Nat.succ_pos _

theorem HasEnd.of_cons {token : Token} {tokens : List Token} (h : HasEnd (token :: tokens))
    (hother : (token.kind == .streamEnd) = false) : HasEnd tokens := by
  rw [HasEnd, List.map_cons, List.mem_cons] at h
  rcases h with heq | hmem
  · exact absurd heq.symm (ne_of_beq_false hother)
  · exact hmem

theorem HasEnd.of_suffix {tokens tokens' : List Token} (h : HasEnd tokens')
    (hsuffix : tokens' <:+ tokens) : HasEnd tokens :=
  List.map_subset _ hsuffix.subset h

namespace NodeReader

/-- A reader with the same tokens, of which some in front are gone, `n` at least; the end of the
stream is not one of them. -/
structure Passes (n : Nat) (r r' : NodeReader) : Prop where
  tokens : r'.tokens <:+ r.tokens
  length : r'.tokens.length + n ≤ r.tokens.length
  fault : r'.fault = r.fault
  hasEnd : HasEnd r.tokens → HasEnd r'.tokens

/-- A reader of tokens with an end, who has the fuel for them; or the fault behind the tokens is
one that may be met.  Reading takes more or less fuel, depending on what is read. -/
def Fueled (bad : Fault → Prop) (more fuel : Nat) (r : NodeReader) : Prop :=
  bad r.fault ∨ HasEnd r.tokens ∧ 2 * r.tokens.length + more ≤ fuel + 1

section Passes

variable {bad : Fault → Prop} {m n more fuel : Nat} {r r' r'' : NodeReader} {token : Token}

theorem kind_of_not_bne {a b : TokenKind} (h : ¬ (a != b) = true) : a = b := by
  simpa using h

theorem passes_of_eq (htokens : r'.tokens = r.tokens) (hfault : r'.fault = r.fault) :
    Passes 0 r r' where
  tokens := htokens ▸ List.suffix_refl _
  length := htokens ▸ Nat.le_refl _
  fault := hfault
  hasEnd := fun h => htokens ▸ h

theorem Passes.refl (r : NodeReader) : Passes 0 r r :=
  passes_of_eq rfl rfl

theorem Passes.trans (h : Passes m r r') (h' : Passes n r' r'') : Passes (m + n) r r'' where
  tokens := h'.tokens.trans h.tokens
  length := by
    have := h.length
    have := h'.length
    omega
  fault := h'.fault.trans h.fault
  hasEnd := fun hend => h'.hasEnd (h.hasEnd hend)

theorem Passes.mono (h : Passes n r r') (hm : m ≤ n) : Passes m r r' :=
  ⟨h.tokens, Nat.le_trans (Nat.add_le_add_left hm _) h.length, h.fault, h.hasEnd⟩

theorem passes_drop {kind : TokenKind} (htoken : r.tokens.head? = some token)
    (hkind : token.kind = kind) (hother : (kind == .streamEnd) = false) :
    Passes 1 r r.drop := by
  rcases List.head?_eq_some_iff.mp htoken with ⟨tokens, htokens⟩
  have hdrop : r.drop.tokens = tokens := by
    rw [drop, htokens, List.drop_one, List.tail_cons]
  refine ⟨?_, ?_, rfl, fun hend => ?_⟩
  · rw [hdrop, htokens]
    exact List.suffix_cons _ _
  · rw [hdrop, htokens]
    exact Nat.le_refl _
  · rw [htokens] at hend
    rw [hdrop]
    exact hend.of_cons (hkind ▸ hother)

theorem Fueled.ready (h : Fueled bad more fuel r) : bad r.fault ∨ HasEnd r.tokens :=
  h.imp_right And.left

theorem Fueled.of_zero (h : Fueled bad more 0 r) : bad r.fault := by
  rcases h with hbad | ⟨hend, hfuel⟩
  · exact hbad
  · have := hend.length_pos
    omega

theorem Fueled.of_passes {more' : Nat} (h : Fueled bad more (fuel + 1) r) (hr : Passes n r r')
    (hmore : more' < more + 2 * n) : Fueled bad more' fuel r' := by
  rcases h with hbad | ⟨hend, hfuel⟩
  · exact Or.inl (hr.fault ▸ hbad)
  · have hlength := hr.length
    exact Or.inr ⟨hr.hasEnd hend, by omega⟩

theorem Fueled.mono (h : Fueled bad more fuel r) (hr : Passes n r r') :
    Fueled bad more fuel r' := by
  rcases h with hbad | ⟨hend, hfuel⟩
  · exact Or.inl (hr.fault ▸ hbad)
  · have hlength := hr.length
    exact Or.inr ⟨hr.hasEnd hend, by omega⟩

theorem concludes_peek (h : bad r.fault ∨ HasEnd r.tokens) :
    Concludes bad (fun token => r.tokens.head? = some token) r.peek := by
  rw [peek]
  split
  next hnil =>
    rw [hnil] at h
    exact h.resolve_right List.not_mem_nil
  next htokens =>
    show r.tokens.head? = _
    rw [htokens, List.head?_cons]

theorem concludes_peekKind (h : bad r.fault ∨ HasEnd r.tokens) :
    Concludes bad (fun kind => ∃ token, r.tokens.head? = some token ∧ token.kind = kind)
      r.peekKind := by
  have hpeek := concludes_peek h
  rw [peekKind]
  cases hr : r.peek with
  | error fault => exact hpeek.of_error hr
  | ok token => exact ⟨token, hpeek.of_ok hr, rfl⟩

theorem Passes.ready (h : Passes n r r') (hr : bad r.fault ∨ HasEnd r.tokens) :
    bad r'.fault ∨ HasEnd r'.tokens := by
  rw [h.fault]
  exact hr.imp_right h.hasEnd

end Passes

section Continues

variable {α β : Type} {bad : Fault → Prop} {m n k : Nat} {r r' : NodeReader}

/-- Reading that fails as it may or goes on behind some tokens. -/
def Continues (bad : Fault → Prop) (n : Nat) (r : NodeReader)
    (x : Except Fault (α × NodeReader)) : Prop :=
  Concludes bad (fun v => Passes n r v.2) x

theorem continues_ok {a : α} (h : Passes n r r') (hm : m ≤ n) :
    Continues bad m r (.ok (a, r')) :=
  h.mono hm

theorem Continues.behind {x : Except Fault (α × NodeReader)} (hx : Continues bad n r' x)
    (h : Passes m r r') : Continues bad (m + n) r x :=
  Concludes.mono hx fun _ => h.trans

theorem Continues.mono {x : Except Fault (α × NodeReader)} (hx : Continues bad n r x)
    (hm : m ≤ n) : Continues bad m r x :=
  Concludes.mono hx fun _ h => h.mono hm

theorem Continues.bind {x : Except Fault (α × NodeReader)}
    {f : α × NodeReader → Except Fault (β × NodeReader)} (hx : Continues bad n r x)
    (hf : ∀ a r', Passes n r r' → Continues bad m r (f (a, r'))) :
    Continues bad m r (x >>= f) :=
  Concludes.bind hx fun v hv => hf v.1 v.2 hv

theorem Fueled.call {more more' fuel : Nat} {read : NodeReader → Except Fault (α × NodeReader)}
    (hr : Fueled bad more (fuel + 1) r)
    (hread : ∀ r', Fueled bad more' fuel r' → Continues bad 0 r' (read r'))
    (h : Passes n r r') (hmore : more' < more + 2 * n) : Continues bad n r (read r') :=
  (hread r' (hr.of_passes h hmore)).behind h

end Continues

/-!
## One node
-/

structure AllContinue (bad : Fault → Prop) (fuel : Nat) : Prop where
  node : ∀ position r, Fueled bad 1 fuel r →
    Continues bad (if position = .flow then 1 else 0) r (readNode fuel position r)
  blockItems : ∀ start r, Fueled bad 0 fuel r → Continues bad 0 r (readBlockItems fuel start r)
  indentlessItems : ∀ r, Fueled bad 0 fuel r → Continues bad 0 r (readIndentlessItems fuel r)
  blockEntries : ∀ start r, Fueled bad 0 fuel r →
    Continues bad 0 r (readBlockEntries fuel start r)
  flowItems : ∀ start isFirst r, Fueled bad 2 fuel r →
    Continues bad 0 r (readFlowItems fuel start isFirst r)
  singleEntry : ∀ r keyStop, Fueled bad 2 fuel r →
    Continues bad 0 r (readSingleEntry fuel r keyStop)
  flowEntries : ∀ start isFirst r, Fueled bad 2 fuel r →
    Continues bad 0 r (readFlowEntries fuel start isFirst r)

section Properties

variable {bad : Fault → Prop} {r : NodeReader}

theorem concludes_properties (h : bad r.fault ∨ HasEnd r.tokens) :
    Concludes bad (fun v => Passes (if v.1.start.isSome then 1 else 0) r v.2) r.properties := by
  rw [properties]
  refine (concludes_peek h).bind fun first hfirst => ?_
  dsimp only
  split
  next name hkind =>
    have hdrop := passes_drop hfirst hkind rfl
    refine (concludes_peek (hdrop.ready h)).bind fun second hsecond => ?_
    split
    next hkind' =>
      exact (hdrop.trans (passes_drop hsecond hkind' rfl)).mono (Nat.le_succ 1)
    · exact hdrop
  next handle suffix hkind =>
    have hdrop := passes_drop hfirst hkind rfl
    refine (concludes_peek (hdrop.ready h)).bind fun second hsecond => ?_
    split
    next hkind' =>
      exact (hdrop.trans (passes_drop hsecond hkind' rfl)).mono (Nat.le_succ 1)
    · exact hdrop
  · exact Passes.refl r

theorem concludes_tagName (hflaw : AllowsFlaws bad) (start : Mark) (properties : Properties) :
    Concludes bad (fun _ => True) (r.tagName start properties) := by
  unfold tagName
  split
  · trivial
  · trivial
  · split
    · trivial
    · exact hflaw _

theorem concludes_checkAnchor (hflaw : AllowsFlaws bad) (anchor : Option String)
    (start : Mark) : Concludes bad (fun _ => True) (r.checkAnchor anchor start) := by
  unfold checkAnchor
  split
  · trivial
  · split
    · exact hflaw _
    · trivial

theorem continues_resolve (hflaw : AllowsFlaws bad) (name : String) (start : Mark) :
    Continues bad 0 r (r.resolve name start) := by
  unfold resolve
  split
  · exact Passes.refl r
  · exact hflaw _

end Properties

namespace AllContinue

variable {bad : Fault → Prop} {fuel : Nat} {r : NodeReader}

theorem optional (h : AllContinue bad fuel) {position : Position} {absent : TokenKind → Bool}
    {mark : Mark} (hr : Fueled bad 1 fuel r) :
    Continues bad 0 r (readOptional fuel position absent mark r) := by
  rw [readOptional]
  refine (concludes_peekKind hr.ready).bind fun kind _ => ?_
  split
  · exact passes_of_eq rfl rfl
  · exact (h.node position r hr).mono (Nat.zero_le _)

theorem value (h : AllContinue bad fuel) {position : Position} {absent : TokenKind → Bool}
    {token : Token} (htoken : r.tokens.head? = some token) (hr : Fueled bad 1 fuel r) :
    Continues bad 0 r (match token.kind with
      | .value => readOptional fuel position absent token.stop r.drop
      | _ => (return r.addEmpty token.start : Result)) := by
  split
  next hkind =>
    have hdrop := passes_drop htoken hkind rfl
    exact ((h.optional (hr.mono hdrop)).behind hdrop).mono (Nat.zero_le _)
  · exact passes_of_eq rfl rfl

theorem succ_blockItems (h : AllContinue bad fuel) (hflaw : AllowsFlaws bad) (start : Mark)
    (r : NodeReader) (hr : Fueled bad 0 (fuel + 1) r) :
    Continues bad 0 r (readBlockItems (fuel + 1) start r) := by
  rw [readBlockItems]
  refine (concludes_peek hr.ready).bind fun token htoken => ?_
  dsimp only
  split
  next hkind =>
    have hdrop := passes_drop htoken hkind rfl
    refine (hr.call (fun _ => h.optional) hdrop (by decide)).bind fun item r₁ hr₁ => ?_
    refine (hr.call (h.blockItems start) hr₁ (by decide)).bind fun items r₂ hr₂ => ?_
    exact continues_ok hr₂ (Nat.zero_le _)
  next hkind => exact continues_ok (passes_drop htoken hkind rfl) (Nat.zero_le _)
  · exact hflaw _

theorem succ_indentlessItems (h : AllContinue bad fuel) (r : NodeReader)
    (hr : Fueled bad 0 (fuel + 1) r) :
    Continues bad 0 r (readIndentlessItems (fuel + 1) r) := by
  rw [readIndentlessItems]
  refine (concludes_peek hr.ready).bind fun token htoken => ?_
  dsimp only
  split
  · exact Passes.refl r
  next hkind =>
    have hdrop := passes_drop htoken (kind_of_not_bne hkind) rfl
    refine (hr.call (fun _ => h.optional) hdrop (by decide)).bind fun item r₁ hr₁ => ?_
    refine (hr.call h.indentlessItems hr₁ (by decide)).bind fun items r₂ hr₂ => ?_
    exact continues_ok hr₂ (Nat.zero_le _)

theorem succ_blockEntries (h : AllContinue bad fuel) (hflaw : AllowsFlaws bad) (start : Mark)
    (r : NodeReader) (hr : Fueled bad 0 (fuel + 1) r) :
    Continues bad 0 r (readBlockEntries (fuel + 1) start r) := by
  rw [readBlockEntries]
  refine (concludes_peek hr.ready).bind fun token htoken => ?_
  dsimp only
  split
  next hkind =>
    exact continues_ok (passes_drop htoken (eq_of_beq hkind) rfl) (Nat.zero_le _)
  · refine concludes_refuse (hflaw _) fun hkind => ?_
    have hdrop := passes_drop htoken (kind_of_not_bne hkind) rfl
    refine (hr.call (fun _ => h.optional) hdrop (by decide)).bind fun key r₁ hr₁ => ?_
    refine (concludes_peek (hr₁.ready hr.ready)).bind fun sign hsign => ?_
    have hfuel : Fueled bad 1 fuel r₁ := hr.of_passes hr₁ (by decide)
    refine ((h.value hsign hfuel).behind hr₁).bind fun value r₂ hr₂ => ?_
    refine (hr.call (h.blockEntries start) hr₂ (by decide)).bind fun entries r₃ hr₃ => ?_
    exact continues_ok hr₃ (Nat.zero_le _)

theorem succ_singleEntry (h : AllContinue bad fuel) (r : NodeReader) (keyStop : Mark)
    (hr : Fueled bad 2 (fuel + 1) r) :
    Continues bad 0 r (readSingleEntry (fuel + 1) r keyStop) := by
  rw [readSingleEntry]
  refine (hr.call (fun _ => h.optional) (Passes.refl r) (by decide)).bind fun key r₁ hr₁ => ?_
  refine (concludes_peek (hr₁.ready hr.ready)).bind fun sign hsign => ?_
  have hfuel : Fueled bad 1 fuel r₁ := hr.of_passes hr₁ (by decide)
  refine ((h.value hsign hfuel).behind hr₁).bind fun value r₂ hr₂ => ?_
  exact continues_ok hr₂ (Nat.zero_le _)

theorem passes_comma {isFirst : Bool} {token : Token} (htoken : r.tokens.head? = some token)
    (h : ¬ (!isFirst && token.kind != .flowEntry) = true) :
    Passes 0 r (if isFirst then r else r.drop) := by
  cases isFirst with
  | true => exact Passes.refl r
  | false => exact (passes_drop htoken (kind_of_not_bne h) rfl).mono (Nat.zero_le _)

theorem succ_flowItems (h : AllContinue bad fuel) (hflaw : AllowsFlaws bad) (start : Mark)
    (isFirst : Bool) (r : NodeReader) (hr : Fueled bad 2 (fuel + 1) r) :
    Continues bad 0 r (readFlowItems (fuel + 1) start isFirst r) := by
  rw [readFlowItems]
  refine (concludes_peek hr.ready).bind fun token htoken => ?_
  dsimp only
  split
  next hkind =>
    exact continues_ok (passes_drop htoken (eq_of_beq hkind) rfl) (Nat.zero_le _)
  · refine concludes_refuse (hflaw _) fun hcomma => ?_
    have hr₁ := passes_comma htoken hcomma
    generalize (if isFirst then r else r.drop) = r₁ at hr₁ ⊢
    refine (concludes_peek (hr₁.ready hr.ready)).bind fun token htoken => ?_
    split
    next hkind =>
      have hdrop := passes_drop htoken (eq_of_beq hkind) rfl
      exact continues_ok (hr₁.trans hdrop) (Nat.zero_le _)
    · -- the item takes a token, as the items behind it need the fuel of one
      refine Continues.bind (?_ : Continues bad 1 r _) fun item r₂ hr₂ => ?_
      · split
        next hkind =>
          have hdrop := hr₁.trans (passes_drop htoken (eq_of_beq hkind) rfl)
          refine Continues.bind (hr.call (fun r' => h.singleEntry r' _)
            (hdrop.trans (passes_of_eq rfl rfl)) (by decide)) fun entry r₂ hr₂ => ?_
          exact continues_ok (hr₂.trans (passes_of_eq rfl rfl)) (by decide)
        next => exact (h.node .flow r₁ (hr.of_passes hr₁ (by decide))).behind hr₁
      · refine (hr.call (h.flowItems start false) hr₂ (by decide)).bind fun items r₃ hr₃ => ?_
        exact continues_ok hr₃ (Nat.zero_le _)

theorem succ_flowEntries (h : AllContinue bad fuel) (hflaw : AllowsFlaws bad) (start : Mark)
    (isFirst : Bool) (r : NodeReader) (hr : Fueled bad 2 (fuel + 1) r) :
    Continues bad 0 r (readFlowEntries (fuel + 1) start isFirst r) := by
  rw [readFlowEntries]
  refine (concludes_peek hr.ready).bind fun token htoken => ?_
  dsimp only
  split
  next hkind =>
    exact continues_ok (passes_drop htoken (eq_of_beq hkind) rfl) (Nat.zero_le _)
  · refine concludes_refuse (hflaw _) fun hcomma => ?_
    have hr₁ := passes_comma htoken hcomma
    generalize (if isFirst then r else r.drop) = r₁ at hr₁ ⊢
    refine (concludes_peek (hr₁.ready hr.ready)).bind fun token htoken => ?_
    split
    next hkind =>
      exact continues_ok (hr₁.trans (passes_drop htoken hkind rfl)) (Nat.zero_le _)
    next hkind =>
      have hdrop := hr₁.trans (passes_drop htoken hkind rfl)
      refine (hr.call (fun _ => h.optional) hdrop (by decide)).bind fun key r₂ hr₂ => ?_
      refine (concludes_peek (hr₂.ready hr.ready)).bind fun sign hsign => ?_
      have hfuel : Fueled bad 1 fuel r₂ := hr.of_passes hr₂ (by decide)
      refine ((h.value hsign hfuel).behind hr₂).bind fun value r₃ hr₃ => ?_
      refine (hr.call (h.flowEntries start false) hr₃ (by decide)).bind fun entries r₄ hr₄ => ?_
      exact continues_ok hr₄ (Nat.zero_le _)
    · have hkey := h.node .flow r₁ (hr.of_passes hr₁ (by decide))
      refine (hkey.behind hr₁).bind fun key r₂ hr₂ => ?_
      refine (concludes_peek (hr₂.ready hr.ready)).bind fun sign _ => ?_
      have hr₃ := hr₂.trans (@passes_of_eq r₂ (r₂.addEmpty sign.start).2 rfl rfl)
      refine Continues.bind (hr.call (h.flowEntries start false) hr₃ (by decide))
        fun entries r₄ hr₄ => ?_
      exact continues_ok hr₄ (Nat.zero_le _)

/-- A collection that opens behind some tokens, gets its members and is filled with them. -/
theorem collection {α : Type} {m n more : Nat} {r₁ : NodeReader}
    {read : NodeReader → Except Fault (α × NodeReader)} {content : α → Content}
    {anchor : Option String} {node : Node} {start : Mark} (hflaw : AllowsFlaws bad)
    (hr : Fueled bad 1 (fuel + 1) r)
    (hread : ∀ r', Fueled bad more fuel r' → Continues bad 0 r' (read r'))
    (h : Passes n r r₁) (hmore : more < 1 + 2 * n) (hm : m ≤ n) {r₀ : NodeReader} :
    Continues bad m r (do
      r₀.checkAnchor anchor start
      let v ← read (r₁.add anchor node).2
      return v.2.fill (r₁.add anchor node).1 (content v.1)) := by
  refine (concludes_checkAnchor hflaw anchor start).bind fun _ _ => ?_
  have hadd := h.trans (@passes_of_eq r₁ (r₁.add anchor node).2 rfl rfl)
  refine Continues.bind (hr.call hread hadd hmore) fun members r₂ hr₂ => ?_
  exact continues_ok (hr₂.trans (passes_of_eq rfl rfl)) hm

theorem succ_node (h : AllContinue bad fuel) (hflaw : AllowsFlaws bad) (position : Position)
    (r : NodeReader) (hr : Fueled bad 1 (fuel + 1) r) :
    Continues bad (if position = .flow then 1 else 0) r (readNode (fuel + 1) position r) := by
  have hone : (if position = .flow then 1 else 0) ≤ 1 := by
    split <;> decide
  have hzero : position ≠ .flow → (if position = .flow then 1 else 0) ≤ 0 :=
    fun hflow => Nat.le_of_eq (if_neg hflow)
  generalize (if position = .flow then 1 else 0) = least at hone hzero ⊢
  rw [readNode]
  refine (concludes_peek hr.ready).bind fun first hfirst => ?_
  split
  next name hkind =>
    have hdrop := passes_drop hfirst hkind rfl
    exact ((continues_resolve hflaw _ _).behind hdrop).mono hone
  · refine (concludes_properties hr.ready).bind fun v hr₁ => ?_
    rcases v with ⟨properties, r₁⟩
    refine (concludes_tagName hflaw _ _).bind fun name _ => ?_
    refine (concludes_peek (hr₁.ready hr.ready)).bind fun token htoken => ?_
    dsimp only at hr₁ ⊢
    have hr₀ : Passes 0 r r₁ := hr₁.mono (Nat.zero_le _)
    split
    next content hkind =>
      have hdrop := hr₀.trans (passes_drop htoken hkind rfl)
      refine (concludes_checkAnchor hflaw _ _).bind fun _ _ => ?_
      exact continues_ok (hdrop.trans (passes_of_eq rfl rfl)) hone
    next hkind =>
      have hdrop := hr₀.trans (passes_drop htoken hkind rfl)
      exact collection hflaw hr (h.flowItems _ true) hdrop (by decide) hone
    next hkind =>
      have hdrop := hr₀.trans (passes_drop htoken hkind rfl)
      exact collection hflaw hr (h.flowEntries _ true) hdrop (by decide) hone
    · split
      next hkind =>
        rw [Bool.and_eq_true, beq_iff_eq, beq_iff_eq] at hkind
        have hblock : position ≠ .flow := by
          rw [hkind.2]
          rintro ⟨⟩
        exact collection hflaw hr h.indentlessItems hr₀ (by decide) (hzero hblock)
      · split
        next hkind =>
          rw [Bool.and_eq_true, beq_iff_eq] at hkind
          have hdrop := hr₀.trans (passes_drop htoken hkind.1 rfl)
          exact collection hflaw hr (h.blockItems _) hdrop (by decide) hone
        · split
          next hkind =>
            rw [Bool.and_eq_true, beq_iff_eq] at hkind
            have hdrop := hr₀.trans (passes_drop htoken hkind.1 rfl)
            exact collection hflaw hr (h.blockEntries _) hdrop (by decide) hone
          · split
            next hsome =>
              rw [if_pos hsome] at hr₁
              refine (concludes_checkAnchor hflaw _ _).bind fun _ _ => ?_
              exact continues_ok (hr₁.trans (passes_of_eq rfl rfl)) hone
            · exact hflaw _

end AllContinue

theorem allContinue {bad : Fault → Prop} (hflaw : AllowsFlaws bad) (fuel : Nat) :
    AllContinue bad fuel := by
  induction fuel with
  | zero =>
      refine ⟨?_, ?_, ?_, ?_, ?_, ?_, ?_⟩
      · intro position r hr
        rw [readNode]
        exact hr.of_zero
      · intro start r hr
        rw [readBlockItems]
        exact hr.of_zero
      · intro r hr
        rw [readIndentlessItems]
        exact hr.of_zero
      · intro start r hr
        rw [readBlockEntries]
        exact hr.of_zero
      · intro start isFirst r hr
        rw [readFlowItems]
        exact hr.of_zero
      · intro r keyStop hr
        rw [readSingleEntry]
        exact hr.of_zero
      · intro start isFirst r hr
        rw [readFlowEntries]
        exact hr.of_zero
  | succ fuel ih =>
      exact ⟨ih.succ_node hflaw, ih.succ_blockItems hflaw, ih.succ_indentlessItems,
        ih.succ_blockEntries hflaw, ih.succ_flowItems hflaw, ih.succ_singleEntry,
        ih.succ_flowEntries hflaw⟩

/-!
## Streams
-/

section Stream

variable {bad : Fault → Prop} {r : NodeReader}

theorem concludes_directives (hflaw : AllowsFlaws bad) (tokens : List Token) (versioned : Bool)
    (handles : List (String × String)) :
    Concludes bad (fun v => v.2 <:+ tokens ∧ (HasEnd tokens → HasEnd v.2))
      (readDirectives tokens versioned handles) := by
  induction tokens generalizing versioned handles with
  | nil => exact ⟨List.suffix_refl _, id⟩
  | cons token tokens ih =>
      have hmore : ∀ {directive}, token.kind = .directive directive →
          ∀ versioned handles, Concludes bad
            (fun v => v.2 <:+ token :: tokens ∧ (HasEnd (token :: tokens) → HasEnd v.2))
            (readDirectives tokens versioned handles) := by
        intro directive hkind versioned handles
        refine (ih versioned handles).mono fun v hv => ?_
        exact ⟨hv.1.trans (List.suffix_cons _ _), fun hend =>
          hv.2 (hend.of_cons (hkind ▸ rfl))⟩
      rw [readDirectives]
      split
      next hkind =>
        exact concludes_ite (fun _ => hflaw _) fun _ =>
          concludes_ite (fun _ => hflaw _) fun _ => hmore hkind _ _
      next hkind => exact concludes_ite (fun _ => hflaw _) fun _ => hmore hkind _ _
      next hkind => exact hmore hkind _ _
      · exact ⟨List.suffix_refl _, id⟩

theorem continues_explicitStart (hflaw : AllowsFlaws bad) (hr : bad r.fault ∨ HasEnd r.tokens) :
    Continues bad 0 r (readStream.explicitStart r) := by
  rw [readStream.explicitStart]
  refine (concludes_peek hr).bind fun first _ => ?_
  refine (concludes_directives hflaw r.tokens false []).bind fun v hv => ?_
  rcases v with ⟨handles, tokens⟩
  dsimp only at hv ⊢
  have hpasses : ∀ handles, Passes 0 r { r with tokens := tokens, handles := handles } :=
    fun _ => ⟨hv.1, hv.1.length_le, rfl, hv.2⟩
  refine (concludes_peek ((hpasses _).ready hr)).bind fun token htoken => ?_
  refine concludes_refuse (hflaw _) fun hkind => ?_
  have hdrop := passes_drop htoken (kind_of_not_bne hkind) rfl
  exact continues_ok ((hpasses _).trans hdrop) (Nat.zero_le _)

theorem concludes_another? (hflaw : AllowsFlaws bad) {fuel : Nat}
    (hr : bad r.fault ∨ HasEnd r.tokens) (hfuel : r.tokens.length < fuel) :
    Concludes bad (fun mark => mark = none → HasEnd r.tokens)
      (readStream.another? fuel r) := by
  induction fuel generalizing r with
  | zero => cases hfuel
  | succ fuel ih =>
      rw [readStream.another?]
      refine (concludes_peek hr).bind fun token htoken => ?_
      refine concludes_ite (fun hkind => ?_) fun _ => concludes_ite (fun hkind _ => ?_) fun _ => ?_
      · have hdrop := passes_drop htoken (eq_of_beq hkind) rfl
        have hlength := hdrop.length
        refine (ih (hdrop.ready hr) (by omega)).mono fun mark hmark hnone => ?_
        exact (hmark hnone).of_suffix hdrop.tokens
      · rw [HasEnd, ← eq_of_beq hkind]
        exact List.mem_map_of_mem (List.mem_of_head? htoken)
      · refine Concludes.bind (continues_explicitStart hflaw hr) fun _ _ => ?_
        rintro ⟨⟩

theorem concludes_stream (hflaw : AllowsFlaws bad) {fuel : Nat}
    (hr : bad r.fault ∨ HasEnd (r.tokens.drop 1)) (hfuel : 2 * r.tokens.length < fuel) :
    Concludes bad (fun _ => HasEnd r.tokens) (readStream fuel r) := by
  have hsuffix := List.drop_suffix 1 r.tokens
  rw [readStream]
  refine (concludes_peek (hr.imp_right fun hend => hend.of_suffix hsuffix)).bind fun _ _ => ?_
  dsimp only
  generalize hr₀ : { r with tokens := r.tokens.drop 1 } = r₀
  have htokens : r₀.tokens = r.tokens.drop 1 := by
    rw [← hr₀]
  rw [← htokens] at hr hsuffix
  have hready : bad r₀.fault ∨ HasEnd r₀.tokens := by
    rw [← hr₀] at hr ⊢
    exact hr
  have hlength := hsuffix.length_le
  refine (concludes_peek hready).bind fun first hfirst => ?_
  refine concludes_ite (fun hkind => ?_) fun _ => ?_
  · refine HasEnd.of_suffix ?_ hsuffix
    rw [HasEnd, ← eq_of_beq hkind]
    exact List.mem_map_of_mem (List.mem_of_head? hfirst)
  · refine Concludes.bind (?_ : Continues bad 0 r₀ _) fun started hstarted => ?_
    · refine concludes_ite (fun _ => continues_explicitStart hflaw hready) fun _ => ?_
      subst hr₀
      exact passes_of_eq rfl rfl
    · rcases started with ⟨mark, r₁⟩
      refine (concludes_peek (hstarted.ready hready)).bind fun token _ => ?_
      have hfuel₁ : Fueled bad 1 fuel r₁ := by
        have hlength₁ : r₁.tokens.length + 0 ≤ r₀.tokens.length := hstarted.length
        exact (hstarted.ready hready).imp_right fun hend => ⟨hend, by omega⟩
      have hnode := (allContinue hflaw fuel).node .block r₁ hfuel₁
      dsimp only
      refine concludes_either (?_ : Continues bad 0 r₀ _) (hnode.behind hstarted)
        fun read hread => ?_
      · exact continues_ok (hstarted.trans (passes_of_eq rfl rfl)) (Nat.le_refl _)
      · refine (concludes_peek (hread.ready hready)).bind fun last hlast => ?_
        have hbehind : Passes 0 r₀ (if last.kind == .documentEnd then read.2.drop else read.2) := by
          split
          next hkind =>
            exact (hread.trans (passes_drop hlast (eq_of_beq hkind) rfl)).mono (Nat.zero_le _)
          · exact hread
        have hlast := hbehind.length
        refine (concludes_another? hflaw (hbehind.ready hready) (by omega)).bind
          fun mark hmark => ?_
        cases mark with
        | none => exact (hmark rfl).of_suffix (hbehind.tokens.trans hsuffix)
        | some mark => exact hflaw _

theorem readStream_unfinished {fuel : Nat} (h : ¬ HasEnd r.tokens)
    (hfuel : 2 * r.tokens.length < fuel) (d : Option Document) : readStream fuel r ≠ .ok d := by
  intro hd
  exact h ((@concludes_stream (fun _ => True) r (fun _ => trivial) fuel (Or.inl trivial)
    hfuel).of_ok hd)

end Stream

end NodeReader
end Yaml
end TextMate
