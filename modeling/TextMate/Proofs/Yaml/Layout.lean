import TextMate.Proofs.Tree.Text
import TextMate.Proofs.Yaml.Run

/-!
# The layout of documents

Documents of texts are laid out in blocks.  What a lexer makes of a block is put
together from what it makes of its parts: a part that is laid out behind a sign,
or the lines of a block.  Each part adds tokens of known kinds, and is read if
none of its keys in front of a colon is too long.
-/

namespace TextMate
namespace Yaml

open Pen Cursor

/-!
## Tokens
-/

def isSimpleName (name : String) : Bool :=
  (Outline.text name).isSimpleKey

namespace Layout

mutual

/-- The kinds of the tokens of a document inside a collection at a column; `level` tells that its
own items may stand in that column. -/
def kinds (column : Nat) (level : Bool) : Tree → List TokenKind
  | .text s => [.scalar (scalarText false (column + 2) s)]
  | .list items =>
      if level then itemKinds column items
      else .blockSequenceStart :: (itemKinds (column + 2) items ++ [.blockEnd])
  | .object members => .blockMappingStart :: (memberKinds (column + 2) members ++ [.blockEnd])
  | _ => []

def itemKinds (column : Nat) : List Tree → List TokenKind
  | [] => []
  | item :: items => .blockEntry :: (kinds column false item ++ itemKinds column items)

def memberKinds (column : Nat) : List (String × Tree) → List TokenKind
  | [] => []
  | (name, t) :: members =>
      .key :: .scalar (scalarText (isSimpleName name) (column + 2) name) :: .value ::
        (kinds column (isSimpleName name) t ++ memberKinds column members)

end

end Layout

mutual

def namesOf : Tree → List String
  | .list items => itemNames items
  | .object members => memberNames members
  | _ => []

def itemNames : List Tree → List String
  | [] => []
  | item :: items => namesOf item ++ itemNames items

def memberNames : List (String × Tree) → List String
  | [] => []
  | (name, t) :: members => name :: (namesOf t ++ memberNames members)

end

/-- Names that are not written as too long a key in front of a colon. -/
def FitsKey (name : String) : Prop :=
  isSimpleName name = true → (keyForm name).length ≤ 1024

/-- Documents without too long a key. -/
def KeysFit (t : Tree) : Prop :=
  ∀ name ∈ namesOf t, FitsKey name

instance (name : String) : Decidable (FitsKey name) :=
  inferInstanceAs (Decidable (isSimpleName name = true → (keyForm name).length ≤ 1024))

instance (t : Tree) : Decidable (KeysFit t) :=
  inferInstanceAs (Decidable (∀ name ∈ namesOf t, FitsKey name))

/-!
## Parts
-/

/-- A text behind a sign at a column that adds tokens of some kinds, if a condition holds. -/
structure Reads (column : Nat) (level : Bool) (fits : Prop) (kinds : List TokenKind)
    (form : List Char) : Prop where
  spaced : ∀ rest, isSpaceOrEnd ((form ++ rest).headD endMark) = true
  outcome : ∀ {l : Lexer} {b : Blocks} {at' k : Nat} {tail : List Char},
    l.Stands b at' (!level) (form ++ (lineStart k ++ tail)) → b.top = column → column < at' →
      (level = false → at' = column + 1) → k ≤ column → StartsToken tail →
        Lexer.Outcome fits l fun l' => l'.Arrives ((b.push kinds).closeTo k) k true tail

/-- The lines of a block at a column that add tokens of some kinds, if a condition holds. -/
structure ReadsBlock (start : TokenKind) (column : Nat) (fits : Prop) (kinds : List TokenKind)
    (form : List Char) : Prop where
  starts : ∀ rest, StartsToken (form ++ rest)
  outcome : ∀ {l : Lexer} {b : Blocks} {k : Nat} {tail : List Char},
    l.Arrives b column true (form ++ (lineStart k ++ tail)) → b.top ≤ column → k ≤ column →
      StartsToken tail →
        Lexer.Outcome fits l fun l' =>
          l'.Arrives (((b.beginAt start column).push kinds).closeTo k) k true tail

namespace Blocks

theorem top_beginAt {b : Blocks} {column : Nat} (h : b.top ≤ column) (kind : TokenKind) :
    (b.beginAt kind column).top = column := by
  rw [beginAt]
  split
  · rfl
  · omega

theorem beginAt_of_top {b : Blocks} {column : Nat} (h : b.top = column) (kind : TokenKind) :
    b.beginAt kind column = b :=
  beginAt_of_le (Int.le_of_eq h.symm) kind

theorem closeTo_beginAt {b : Blocks} {column k : Nat} (hne : b.stack ≠ []) (htop : b.top < column)
    (hk : k < column) (start : TokenKind) (kinds : List TokenKind) :
    ((b.beginAt start column).push kinds).closeTo k =
      (b.push (start :: (kinds ++ [.blockEnd]))).closeTo k := by
  rw [beginAt_of_lt htop, push, push]
  rw [closeTo_begun hne (by omega)]
  simp

end Blocks

theorem reads_text {column : Nat} {level : Bool} {form : List Char} {text : ScalarText}
    (h : ScalarForm (column + 2) form text) :
    Reads column level True [.scalar text] (' ' :: form) where
  spaced := fun rest => rfl
  outcome := by
    intro l b at' k tail hstands htop hat hsign hk htail
    have harrives := @Lexer.Stands.arrives l b at' 1 _ _ hstands (h.startsToken (Or.inr rfl))
    rw [Blocks.closeTo_of_le (by omega)] at harrives
    rcases harrives.scalar h (by omega) (by omega) (Nat.succ_pos _) (by omega) htail with
      ⟨l', hstep, hless, hafter⟩
    exact .passes trivial (harrives.reaches hstep hless) hafter

theorem ReadsBlock.level {column : Nat} {fits : Prop} {kinds : List TokenKind} {form : List Char}
    (h : ReadsBlock .blockSequenceStart column fits kinds form) :
    Reads column true fits kinds (lineStart column ++ form) where
  spaced := fun rest => rfl
  outcome := by
    intro l b at' k tail hstands htop hat hsign hk htail
    rw [List.append_assoc] at hstands
    have harrives := hstands.toRests.arrives (h.starts _)
    rw [Blocks.closeTo_of_le (Int.le_of_eq htop)] at harrives
    have houtcome := h.outcome harrives (Int.le_of_eq htop) hk htail
    rwa [Blocks.beginAt_of_top htop] at houtcome

theorem ReadsBlock.behind {column : Nat} {start : TokenKind} {fits : Prop} {kinds : List TokenKind}
    {form : List Char} (h : ReadsBlock start (column + 2) fits kinds form) :
    Reads column false fits (start :: (kinds ++ [.blockEnd])) (' ' :: form) where
  spaced := fun rest => rfl
  outcome := by
    intro l b at' k tail hstands htop hat hsign hk htail
    have hat : at' = column + 1 := hsign rfl
    subst hat
    have hne : b.stack ≠ [] := hstands.blocks_eq ▸ l.indents_ne_nil
    have harrives := @Lexer.Stands.arrives l b (column + 1) 1 _ _ hstands (h.starts _)
    rw [Blocks.closeTo_of_le (by omega)] at harrives
    have houtcome := h.outcome harrives (by omega) (by omega) htail
    rwa [Blocks.closeTo_beginAt hne (by omega) (by omega)] at houtcome

theorem ReadsBlock.below {column : Nat} {start : TokenKind} {fits : Prop} {kinds : List TokenKind}
    {form : List Char} (h : ReadsBlock start (column + 2) fits kinds form) :
    Reads column true fits (start :: (kinds ++ [.blockEnd])) (lineStart (column + 2) ++ form) where
  spaced := fun rest => rfl
  outcome := by
    intro l b at' k tail hstands htop hat hsign hk htail
    rw [List.append_assoc] at hstands
    have hne : b.stack ≠ [] := hstands.blocks_eq ▸ l.indents_ne_nil
    have harrives := hstands.toRests.arrives (h.starts _)
    rw [Blocks.closeTo_of_le (by omega)] at harrives
    have houtcome := h.outcome harrives (by omega) (by omega) htail
    rwa [Blocks.closeTo_beginAt hne (by omega) (by omega)] at houtcome

theorem Reads.item {column : Nat} {fits : Prop} {kinds : List TokenKind} {form : List Char}
    (h : Reads column false fits kinds form) :
    ReadsBlock .blockSequenceStart column fits (.blockEntry :: kinds) ('-' :: form) where
  starts := by
    intro rest
    refine startsToken_cons rfl (by decide) (by decide) (fun _ heq => ?_) (by decide)
    have hspaced := h.spaced rest
    rw [show (form ++ rest).headD endMark = '-' from heq] at hspaced
    cases hspaced
  outcome := by
    intro l b k tail harrives htop hk htail
    rcases harrives.blockEntry (h.spaced _) with ⟨l', hstep, hstands⟩
    have htop' := Blocks.top_beginAt htop .blockSequenceStart
    have hless : l'.cursor.rest.length < l.cursor.rest.length := by
      rw [hstands.rest_eq]
      exact harrives.length_le
    refine (harrives.reaches hstep hless).outcome ?_
    have houtcome := h.outcome hstands htop' (Nat.lt_succ_self _) (fun _ => rfl) hk htail
    rwa [Blocks.push_push] at houtcome

theorem Reads.simpleMember {column : Nat} {fits : Prop} {kinds : List TokenKind}
    {key form : List Char} {text : ScalarText} (h : Reads column true fits kinds form)
    (hkey : ScalarForm (column + 2) key text) (htakes : ∀ c ∈ key, TakesColumn c) :
    ReadsBlock .blockMappingStart column (key.length ≤ 1024 ∧ fits)
      (.key :: .scalar text :: .value :: kinds) (key ++ (':' :: form)) where
  starts := by
    intro rest
    rw [List.append_assoc]
    exact hkey.startsToken (Or.inl rfl)
  outcome := by
    intro l b k tail harrives htop hk htail
    rw [List.append_assoc] at harrives
    have hsimple := harrives.simpleKey hkey htakes htop (by omega) (by omega) (h.spaced _)
    refine hsimple.bind fun l' hstands => ?_
    have htop' := Blocks.top_beginAt htop .blockMappingStart
    have houtcome := h.outcome hstands htop' (by omega) (fun heq => nomatch heq) hk htail
    rwa [Blocks.push_push] at houtcome

theorem Reads.markedMember {column : Nat} {fits : Prop} {kinds : List TokenKind}
    {key form : List Char} {text : ScalarText} (h : Reads column false fits kinds form)
    (hkey : ScalarForm (column + 2) key text) :
    ReadsBlock .blockMappingStart column fits (.key :: .scalar text :: .value :: kinds)
      ('?' :: ' ' :: (key ++ (lineStart column ++ (':' :: form)))) where
  starts := fun rest =>
    startsToken_cons rfl (by decide) (by decide) (fun h => nomatch h) (by decide)
  outcome := by
    intro l b k tail harrives htop hk htail
    simp only [List.cons_append, List.append_assoc] at harrives
    have htop' := Blocks.top_beginAt htop .blockMappingStart
    generalize hb : b.beginAt .blockMappingStart column = b' at htop'
    rcases harrives.key (show isSpaceOrEnd ' ' = true from rfl) with ⟨l₁, hstep₁, hstands₁⟩
    rw [hb] at hstands₁
    have hless₁ : l₁.cursor.rest.length < l.cursor.rest.length := by
      rw [hstands₁.rest_eq]
      exact harrives.length_le
    have harrives₁ := @Lexer.Stands.arrives l₁ _ (column + 1) 1 _ _ hstands₁
      (hkey.startsToken (Or.inr rfl))
    rw [Blocks.closeTo_of_le (by rw [Blocks.top_push]; omega)] at harrives₁
    rcases @Lexer.Arrives.scalar _ _ _ _ _ column _ _ _ harrives₁ hkey
        (by rw [Blocks.top_push]; omega) (by rw [Blocks.top_push]; omega) (Nat.succ_pos _)
        (by rw [Blocks.top_push]; omega) (Lexer.startsToken_colon _) with
      ⟨l₂, hstep₂, hless₂, harrives₂⟩
    rw [Blocks.push_push, Blocks.closeTo_of_le (by rw [Blocks.top_push]; omega)] at harrives₂
    rcases harrives₂.value (h.spaced _) with ⟨l₃, hstep₃, hstands₃⟩
    rw [Blocks.beginAt_of_top (by rw [Blocks.top_push]; exact htop'), Blocks.push_push] at hstands₃
    have hless₃ : l₃.cursor.rest.length < l₂.cursor.rest.length := by
      rw [hstands₃.rest_eq]
      exact harrives₂.length_le
    have houtcome := h.outcome hstands₃ (by rw [Blocks.top_push]; exact htop')
      (Nat.lt_succ_self _) (fun _ => rfl) hk htail
    rw [Blocks.push_push] at houtcome
    exact ((harrives.reaches hstep₁ hless₁).trans ((harrives₁.reaches hstep₂ hless₂).trans
      (harrives₂.reaches hstep₃ hless₃))).outcome houtcome

theorem ReadsBlock.append {start : TokenKind} {column : Nat} {fits fits' : Prop}
    {kinds kinds' : List TokenKind} {form form' : List Char}
    (h : ReadsBlock start column fits kinds form)
    (h' : ReadsBlock start column fits' kinds' form') :
    ReadsBlock start column (fits ∧ fits') (kinds ++ kinds')
      (form ++ lineStart column ++ form') where
  starts := by
    intro rest
    rw [List.append_assoc, List.append_assoc]
    exact h.starts _
  outcome := by
    intro l b k tail harrives htop hk htail
    simp only [List.append_assoc] at harrives
    have htop' := Blocks.top_beginAt htop start
    have houtcome := h.outcome harrives htop (Nat.le_refl _) (h'.starts _)
    refine houtcome.bind fun l' harrives' => ?_
    rw [Blocks.closeTo_of_le (by rw [Blocks.top_push]; omega)] at harrives'
    have houtcome' := h'.outcome harrives' (by rw [Blocks.top_push]; omega) hk htail
    rw [Blocks.beginAt_of_top (by rw [Blocks.top_push]; exact htop'), Blocks.push_push]
      at houtcome'
    exact houtcome'

theorem Reads.of_iff {column : Nat} {level : Bool} {fits fits' : Prop} {kinds : List TokenKind}
    {form : List Char} (h : Reads column level fits kinds form) (hiff : fits ↔ fits') :
    Reads column level fits' kinds form where
  spaced := h.spaced
  outcome := fun hstands htop hat hsign hk htail =>
    (h.outcome hstands htop hat hsign hk htail).of_iff hiff

theorem ReadsBlock.of_iff {start : TokenKind} {column : Nat} {fits fits' : Prop}
    {kinds : List TokenKind} {form : List Char} (h : ReadsBlock start column fits kinds form)
    (hiff : fits ↔ fits') : ReadsBlock start column fits' kinds form where
  starts := h.starts
  outcome := fun harrives htop hk htail => (h.outcome harrives htop hk htail).of_iff hiff

theorem Reads.lastItem {column : Nat} {item : Tree} {form : List Char}
    (h : Reads column false (KeysFit item) (Layout.kinds column false item) form) :
    ReadsBlock .blockSequenceStart column (∀ name ∈ itemNames [item], FitsKey name)
      (Layout.itemKinds column [item]) ('-' :: form) := by
  rw [Layout.itemKinds, Layout.itemKinds, List.append_nil, itemNames, itemNames, List.append_nil]
  exact h.item

theorem Reads.consItem {column : Nat} {item : Tree} {items : List Tree}
    {form form' : List Char}
    (h : Reads column false (KeysFit item) (Layout.kinds column false item) form)
    (h' : ReadsBlock .blockSequenceStart column (∀ name ∈ itemNames items, FitsKey name)
      (Layout.itemKinds column items) form') :
    ReadsBlock .blockSequenceStart column (∀ name ∈ itemNames (item :: items), FitsKey name)
      (Layout.itemKinds column (item :: items)) ('-' :: (form ++ lineStart column ++ form')) := by
  rw [Layout.itemKinds, itemNames]
  exact (h.item.append h').of_iff (List.forall_mem_append.symm)

section Members

variable {column : Nat} {name : String} {t : Tree} {members : List (String × Tree)}
  {form form' : List Char}

theorem ReadsBlock.lastMember
    (h : ReadsBlock .blockMappingStart column (FitsKey name ∧ KeysFit t)
      (.key :: .scalar (scalarText (isSimpleName name) (column + 2) name) :: .value ::
        Layout.kinds column (isSimpleName name) t) form) :
    ReadsBlock .blockMappingStart column (∀ n ∈ memberNames [(name, t)], FitsKey n)
      (Layout.memberKinds column [(name, t)]) form := by
  rw [Layout.memberKinds, Layout.memberKinds, List.append_nil, memberNames, memberNames,
    List.append_nil]
  exact h.of_iff List.forall_mem_cons.symm

theorem ReadsBlock.consMember
    (h : ReadsBlock .blockMappingStart column (FitsKey name ∧ KeysFit t)
      (.key :: .scalar (scalarText (isSimpleName name) (column + 2) name) :: .value ::
        Layout.kinds column (isSimpleName name) t) form)
    (h' : ReadsBlock .blockMappingStart column (∀ n ∈ memberNames members, FitsKey n)
      (Layout.memberKinds column members) form') :
    ReadsBlock .blockMappingStart column (∀ n ∈ memberNames ((name, t) :: members), FitsKey n)
      (Layout.memberKinds column ((name, t) :: members)) (form ++ lineStart column ++ form') := by
  rw [Layout.memberKinds, memberNames]
  refine (h.append h').of_iff ?_
  rw [List.forall_mem_cons, List.forall_mem_append, and_assoc]
  rfl

end Members

/-!
## What a pen writes
-/

namespace Pen

/-- A pen that has written some characters behind others and stands at the end of a line. -/
structure Ends (p : Pen) (form written : List Char) : Prop where
  written_eq : p.written = form.reverse ++ written
  inIndent_eq : p.inIndent = false
  afterSpace_eq : p.afterSpace = false

/-- A pen behind the sign of an entry at a column; `level` tells that the sign is the colon behind
a name. -/
structure Signed (p : Pen) (column : Nat) (level : Bool) : Prop where
  afterSpace_eq : p.afterSpace = false
  inIndent_eq : p.inIndent = !level
  lt_column : column < p.column
  column_eq : level = false → p.column = column + 1

theorem sign_indented (before : List Char) (column : Nat) (sign : Char) :
    (Pen.mk before column true true).sign [sign] true true =
      ⟨sign :: before, column + 1, false, true⟩ := rfl

theorem signed_indented (before : List Char) (column : Nat) :
    Signed ⟨before, column + 1, false, true⟩ column false where
  afterSpace_eq := rfl
  inIndent_eq := rfl
  lt_column := Nat.lt_succ_self column
  column_eq := fun _ => rfl

theorem Ends.behind {p : Pen} {form before written : List Char}
    (h : p.Ends form (before.reverse ++ written)) : p.Ends (before ++ form) written where
  written_eq := by
    rw [h.written_eq]
    simp
  inIndent_eq := h.inIndent_eq
  afterSpace_eq := h.afterSpace_eq

theorem Ends.indentTo {p : Pen} {form written : List Char} (h : p.Ends form written)
    (column : Nat) :
    p.indentTo column =
      ⟨(form ++ lineStart column).reverse ++ written, column, true, true⟩ := by
  rw [indentTo_newLine (Or.inl h.inIndent_eq), h.written_eq]
  simp

end Pen

theorem isMultiline_of_isSimpleName {name : String} (h : isSimpleName name = true) :
    Style.isMultiline name.toList = false := by
  rw [isSimpleName, Outline.text, Outline.isSimpleKey, Bool.and_eq_true, Bool.not_eq_true'] at h
  exact h.2

namespace Outline

open Layout

theorem write_text (column : Nat) {level isValue : Bool} (s : String) {p : Pen}
    (hp : p.Signed column level) :
    ∃ form, (write (some column) isValue false (ofTree (.text s)) p).Ends form p.written
      ∧ Reads column level (KeysFit (.text s)) (kinds column level (.text s)) form := by
  have hcolumn := hp.lt_column
  rcases @writeScalar_written column false s p (fun _ => hcolumn) with
    ⟨form, hform, hwritten, hindent, hspace, _⟩
  have hlead : p.lead = [' '] := by
    rw [lead, hp.afterSpace_eq]
    rfl
  rw [hlead] at hwritten
  refine ⟨' ' :: form, ⟨hwritten, hindent, hspace⟩, ?_⟩
  exact (reads_text hform).of_iff (iff_of_true trivial (by rintro name ⟨⟩))

def writeName (column : Nat) (name : String) (p : Pen) : Pen :=
  if isSimpleName name then (write (some column) true true (text name) p).sign [':'] false false
  else
    ((write (some column) true false (text name) (p.sign ['?'] true true)).indentTo column).sign
      [':'] true true

theorem writeName_written (column : Nat) (name : String) (before : List Char) :
    ∃ head, (writeName column name ⟨before, column, true, true⟩).written = head.reverse ++ before
      ∧ (writeName column name ⟨before, column, true, true⟩).Signed column (isSimpleName name)
      ∧ ∀ {fits : Prop} {kinds : List TokenKind} {form : List Char},
        Reads column (isSimpleName name) fits kinds form →
          ReadsBlock .blockMappingStart column (FitsKey name ∧ fits)
            (.key :: .scalar (scalarText (isSimpleName name) (column + 2) name) :: .value :: kinds)
            (head ++ form) := by
  cases hsimple : isSimpleName name with
  | true =>
      have hline := isMultiline_of_isSimpleName hsimple
      rcases @writeScalar_written column true name ⟨before, column, true, true⟩
        (fun h => nomatch h) with ⟨form, hform, hwritten, hindent, hspace, hkey⟩
      rcases hkey rfl hline with ⟨rfl, hcolumn⟩
      have hfits : FitsKey name ↔ (keyForm name).length ≤ 1024 := by
        rw [FitsKey, hsimple]
        simp
      rw [writeName, if_pos hsimple, text, write, sign_close]
      refine ⟨keyForm name ++ [':'], ?_, ?_, ?_⟩
      · dsimp only
        rw [hwritten]
        simp [lead]
      · refine ⟨rfl, Bool.and_false _, ?_, fun h => nomatch h⟩
        dsimp only
        rw [hcolumn, List.length_singleton]
        show column < column + _ + 1
        omega
      · intro fits kinds form hreads
        rw [List.append_assoc, List.singleton_append, hfits]
        exact hreads.simpleMember hform (takesColumn_keyForm hline)
  | false =>
      have hfits : FitsKey name ↔ True := by
        rw [FitsKey, hsimple]
        simp
      rcases @writeScalar_written column false name ⟨'?' :: before, column + 1, false, true⟩
        (fun _ => Nat.le_refl _) with ⟨form, hform, hwritten, hindent, hspace, _⟩
      have hends : (writeScalar (some column) false .text name
          ⟨'?' :: before, column + 1, false, true⟩).Ends (' ' :: form) ('?' :: before) :=
        ⟨hwritten, hindent, hspace⟩
      rw [writeName, if_neg (by rw [hsimple]; exact Bool.false_ne_true), sign_indented, text, write,
        hends.indentTo, sign_indented]
      refine ⟨'?' :: ' ' :: (form ++ (lineStart column ++ [':'])), ?_, ?_, ?_⟩
      · simp
      · exact signed_indented _ column
      · intro fits kinds form' hreads
        rw [hfits, true_and]
        have hmember := hreads.markedMember hform
        simpa using hmember

theorem indentTo_of_signed {column : Nat} {level : Bool} {p : Pen} (hp : p.Signed column level) :
    p.indentTo (column + 2) =
      ⟨(if level then lineStart (column + 2) else [' ']).reverse ++ p.written, column + 2, true,
        true⟩ := by
  cases level with
  | true => exact indentTo_newLine (Or.inl hp.inIndent_eq)
  | false =>
      have hcolumn := hp.column_eq rfl
      rw [indentTo_blanks hp.inIndent_eq (by omega), hcolumn]
      simp

theorem ofItems_ne_nil {items : List Tree} (h : items ≠ []) :
    (ofItems items).isEmpty ≠ true := by
  cases items with
  | nil => exact absurd rfl h
  | cons item items => exact Bool.false_ne_true

theorem ofMembers_ne_nil {members : List (String × Tree)} (h : members ≠ []) :
    (ofMembers members).isEmpty ≠ true := by
  cases members with
  | nil => exact absurd rfl h
  | cons m members => exact Bool.false_ne_true

mutual

theorem write_value : ∀ (t : Tree), t.IsText → ∀ {column : Nat} {level isValue : Bool} {p : Pen},
    p.Signed column level → (level = true → isValue = true) →
      ∃ form, (write (some column) isValue false (ofTree t) p).Ends form p.written
        ∧ Reads column level (KeysFit t) (kinds column level t) form
  | .text s, _, column, level, isValue, p, hp, _ => write_text column s hp
  | .list items, ht, column, level, isValue, p, hp, hvalue => by
      cases ht with
      | list hne hitems =>
          rw [ofTree, write, if_neg (ofItems_ne_nil hne), hp.inIndent_eq, kinds]
          cases level with
          | true =>
              have hline : p.indentTo column =
                  ⟨(lineStart column).reverse ++ p.written, column, true, true⟩ :=
                indentTo_newLine (Or.inl hp.inIndent_eq)
              rcases write_items items hne hitems hline with ⟨form, hends, hreads⟩
              rw [hvalue rfl]
              exact ⟨lineStart column ++ form, hends.behind, hreads.level⟩
          | false =>
              rcases write_items items hne hitems (indentTo_of_signed hp) with
                ⟨form, hends, hreads⟩
              rw [Bool.not_false, Bool.not_true, Bool.and_false]
              exact ⟨' ' :: form, hends.behind, hreads.behind⟩
  | .object members, ht, column, level, isValue, p, hp, hvalue => by
      cases ht with
      | object hne _ hmembers =>
          rcases write_members members hne hmembers (indentTo_of_signed hp) with
            ⟨form, hends, hreads⟩
          rw [ofTree, write, if_neg (ofMembers_ne_nil hne), kinds]
          refine ⟨_, hends.behind, ?_⟩
          cases level with
          | true => exact hreads.below
          | false => exact hreads.behind
  | .null, ht, _, _, _, _, _, _ => nomatch ht
  | .bool _, ht, _, _, _, _, _, _ => nomatch ht
  | .int _, ht, _, _, _, _, _, _ => nomatch ht
  | .float _, ht, _, _, _, _, _, _ => nomatch ht

theorem write_items : ∀ (items : List Tree), items ≠ [] → (∀ t ∈ items, t.IsText) →
    ∀ {column : Nat} {before : List Char} {p : Pen},
      p.indentTo column = ⟨before, column, true, true⟩ →
        ∃ form, (writeItems column (ofItems items) p).Ends form before
          ∧ ReadsBlock .blockSequenceStart column (∀ name ∈ itemNames items, FitsKey name)
            (itemKinds column items) form
  | [], hne, _, _, _, _, _ => absurd rfl hne
  | item :: items, _, hitems, column, before, p, hp => by
      rw [ofItems, writeItems, hp, sign_indented]
      rcases @write_value item (hitems item List.mem_cons_self) column false false _
        (signed_indented ('-' :: before) column) (fun h => nomatch h) with ⟨form, hends, hreads⟩
      cases items with
      | nil => exact ⟨'-' :: form, @Ends.behind _ form ['-'] before hends, hreads.lastItem⟩
      | cons next items =>
          rcases write_items (next :: items) (List.cons_ne_nil _ _)
              (fun t ht => hitems t (List.mem_cons_of_mem _ ht)) (hends.indentTo column) with
            ⟨form', hends', hreads'⟩
          exact ⟨'-' :: (form ++ lineStart column ++ form'),
            @Ends.behind _ _ ['-'] before hends'.behind, hreads.consItem hreads'⟩

theorem write_members : ∀ (members : List (String × Tree)), members ≠ [] →
    (∀ m ∈ members, m.2.IsText) → ∀ {column : Nat} {before : List Char} {p : Pen},
      p.indentTo column = ⟨before, column, true, true⟩ →
        ∃ form, (writeEntries column (ofMembers members) p).Ends form before
          ∧ ReadsBlock .blockMappingStart column (∀ n ∈ memberNames members, FitsKey n)
            (memberKinds column members) form
  | [], hne, _, _, _, _, _ => absurd rfl hne
  | (name, t) :: members, _, hmembers, column, before, p, hp => by
      rcases writeName_written column name before with ⟨head, hwritten, hsigned, hmember⟩
      rcases write_value t (hmembers (name, t) List.mem_cons_self) hsigned (fun _ => rfl) with
        ⟨form, hends, hreads⟩
      rw [hwritten] at hends
      rw [ofMembers, writeEntries, hp]
      show ∃ form, (writeEntries column (ofMembers members) (write (some column) true false
        (ofTree t) (writeName column name ⟨before, column, true, true⟩))).Ends form before ∧ _
      cases members with
      | nil => exact ⟨head ++ form, hends.behind, (hmember hreads).lastMember⟩
      | cons next members =>
          rcases write_members (next :: members) (List.cons_ne_nil _ _)
              (fun m hm => hmembers m (List.mem_cons_of_mem _ hm)) (hends.indentTo column) with
            ⟨form', hends', hreads'⟩
          refine ⟨head ++ form ++ lineStart column ++ form', ?_,
            (hmember hreads).consMember hreads'⟩
          have hall := hends'.behind.behind
          simpa using hall

end

end Outline

/-- The tokens of a printed object, or those in front of a key that is too long. -/
theorem tokenize_print {members : List (String × Tree)} (h : (Tree.object members).IsText) :
    (KeysFit (.object members) ∧ ∃ tokens,
        tokenize (print (.object members)).toList = (tokens, none)
          ∧ tokens.map (·.kind) =
          .streamStart :: .blockMappingStart ::
            (Layout.memberKinds 0 members ++ [.blockEnd, .streamEnd]))
      ∨ (¬ KeysFit (.object members) ∧ ∃ tokens fault,
        tokenize (print (.object members)).toList = (tokens, some fault)
          ∧ .streamEnd ∉ tokens.map (·.kind)) := by
  have hclean : ∀ c ∈ (print (.object members)).toList, isAcceptable c = true :=
    Outline.isAcceptable_print _
  cases h with
  | object hne _ hmembers =>
      rcases @Outline.write_members members hne hmembers 0 [] blank rfl with
        ⟨form, hends, hreads⟩
      have hprint : (print (.object members)).toList = form ++ (lineStart 0 ++ []) := by
        rw [print, Outline.print, Outline.ofTree, Outline.write,
          if_neg (Outline.ofMembers_ne_nil hne), Pen.text, String.toList_ofList]
        show (indentTo (Outline.writeEntries 0 (Outline.ofMembers members) blank)
          0).written.reverse = _
        rw [hends.indentTo]
        simp
      rw [hprint] at hclean ⊢
      have hstands : (Lexer.start (form ++ (lineStart 0 ++ []))).Stands
          ⟨[.streamStart], [-1]⟩ 0 true (form ++ (lineStart 0 ++ [])) := Lexer.stands_start
      have harrives := @Lexer.Stands.arrives _ _ 0 0 _ _ hstands (hreads.starts _)
      rw [Blocks.closeTo_of_le (by decide)] at harrives
      have houtcome := hreads.outcome harrives (by decide) (Nat.le_refl 0) startsToken_nil
      rcases houtcome.tokenize hclean (hreads.starts _) with
        ⟨hfits, tokens, htokens, hkinds⟩ | ⟨hfits, hfails⟩
      · have hbegun : (Blocks.beginAt ⟨[.streamStart], [-1]⟩ .blockMappingStart 0).push
            (Layout.memberKinds 0 members) =
            ⟨.streamStart :: .blockMappingStart :: Layout.memberKinds 0 members, [0, -1]⟩ := rfl
        have hstay : Blocks.closeTo ⟨.streamStart :: .blockMappingStart ::
            Layout.memberKinds 0 members, [0, -1]⟩ (0 : Nat) =
            ⟨.streamStart :: .blockMappingStart :: Layout.memberKinds 0 members, [0, -1]⟩ :=
          Blocks.closeTo_of_le (Int.le_refl 0)
        have hends : Blocks.closeTo ⟨.streamStart :: .blockMappingStart ::
            Layout.memberKinds 0 members, [0, -1]⟩ (-1) =
            ⟨.streamStart :: .blockMappingStart :: Layout.memberKinds 0 members ++ [.blockEnd],
              [-1]⟩ := rfl
        rw [hbegun, hstay, hends] at hkinds
        exact Or.inl ⟨hfits, tokens, htokens, by simpa using hkinds⟩
      · exact Or.inr ⟨hfits, hfails⟩

end Yaml
end TextMate
