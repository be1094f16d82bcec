import TextMate.Proofs.Json.Literal
import TextMate.Proofs.Tree.Text

/-!
# Reading printed documents

A document of texts is read back from each of its two layouts.  Both are cases of
one: they differ in the characters of their literals and in the blanks that set
the parts of a document apart.  Blanks are skipped whatever they are; collections
follow by induction on the document.  A reader with more fuel than there are
characters never runs out of it.
-/

namespace TextMate
namespace Json

open Text

/-!
## Blanks
-/

theorem skipBlanks_append {blanks rest : List Char}
    (hblanks : ∀ b ∈ blanks, Cursor.isBlank b = true)
    (hrest : ∀ c cs, rest = c :: cs → Cursor.isBlank c = false) (p : Nat) :
    (Cursor.mk p (blanks ++ rest)).skipBlanks = ⟨p + blanks.length, rest⟩ := by
  have htake : (blanks ++ rest).takeWhile Cursor.isBlank = blanks := by
    rw [List.takeWhile_append_of_pos hblanks]
    cases rest with
    | nil => simp
    | cons c cs => simp [hrest c cs rfl]
  simp [Cursor.skipBlanks, Cursor.skip, htake]

theorem isBlank_of_mem_newLine {depth : Nat} {b : Char} (h : b ∈ newLine depth) :
    Cursor.isBlank b = true := by
  rcases List.mem_cons.mp h with rfl | h
  · rfl
  · rw [List.eq_of_mem_replicate h]
    rfl

structure Blanks where
  chars : List Char
  blank : ∀ b ∈ chars, Cursor.isBlank b = true

namespace Blanks

def ofNewLine (depth : Nat) : Blanks :=
  ⟨newLine depth, fun _ => isBlank_of_mem_newLine⟩

def none : Blanks :=
  ⟨[], fun _ h => nomatch h⟩

def ofChar (c : Char) (h : Cursor.isBlank c = true) : Blanks :=
  ⟨[c], fun _ hmem => List.mem_singleton.mp hmem ▸ h⟩

def one : Blanks :=
  .ofChar ' ' rfl

theorem skip (blanks : Blanks) {c : Char} (hc : Cursor.isBlank c = false) (p : Nat)
    (rest : List Char) :
    (Cursor.mk p (blanks.chars ++ c :: rest)).skipBlanks = ⟨p + blanks.chars.length, c :: rest⟩ :=
  skipBlanks_append blanks.blank
    (fun _ _ h => by
      cases h
      exact hc) p

end Blanks

theorem skipBlanks_cons {c : Char} (hc : Cursor.isBlank c = false) (p : Nat)
    (rest : List Char) : (Cursor.mk p (c :: rest)).skipBlanks = ⟨p, c :: rest⟩ :=
  Blanks.none.skip hc p rest

/-!
## Layouts
-/

/-- How a document is laid out: the characters of its literals, and what stands behind an opening
bracket, behind a comma and in front of a closing bracket. -/
structure Layout where
  ascii : Bool
  opening : Nat → Blanks
  separating : Nat → Blanks
  closing : Nat → Blanks

namespace Layout

def lines : Layout :=
  ⟨false, .ofNewLine, .ofNewLine, .ofNewLine⟩

def line : Layout :=
  ⟨true, fun _ => .none, fun _ => .one, fun _ => .none⟩

mutual

def chars (l : Layout) (depth : Nat) : Tree → List Char
  | .list (item :: items) =>
      '[' :: (l.opening (depth + 1)).chars ++ l.chars (depth + 1) item
        ++ l.itemChars (depth + 1) items ++ (l.closing depth).chars ++ [']']
  | .object ((name, value) :: members) =>
      '\x7b' :: (l.opening (depth + 1)).chars ++ literal l.ascii name ++ [':', ' ']
        ++ l.chars (depth + 1) value
        ++ l.memberChars (depth + 1) members ++ (l.closing depth).chars ++ ['\x7d']
  | t => scalarText l.ascii t

def itemChars (l : Layout) (depth : Nat) : List Tree → List Char
  | [] => []
  | item :: items =>
      ',' :: (l.separating depth).chars ++ l.chars depth item ++ l.itemChars depth items

def memberChars (l : Layout) (depth : Nat) : List (String × Tree) → List Char
  | [] => []
  | (name, value) :: members =>
      ',' :: (l.separating depth).chars ++ literal l.ascii name ++ [':', ' ']
        ++ l.chars depth value ++ l.memberChars depth members

end

end Layout

mutual

theorem indented_eq (depth : Nat) : ∀ t : Tree, indented depth t = Layout.lines.chars depth t
  | .list (item :: items) => by
      rw [indented, Layout.chars, indented_eq (depth + 1) item,
        indentedItems_eq (depth + 1) items]
      rfl
  | .object ((name, value) :: members) => by
      rw [indented, Layout.chars, indented_eq (depth + 1) value,
        indentedMembers_eq (depth + 1) members]
      rfl
  | .list [] => rfl
  | .object [] => rfl
  | .null => rfl
  | .bool _ => rfl
  | .int _ => rfl
  | .float _ => rfl
  | .text _ => rfl

theorem indentedItems_eq (depth : Nat) :
    ∀ items : List Tree, indentedItems depth items = Layout.lines.itemChars depth items
  | [] => rfl
  | item :: items => by
      rw [indentedItems, Layout.itemChars, indented_eq depth item, indentedItems_eq depth items]
      rfl

theorem indentedMembers_eq (depth : Nat) : ∀ members : List (String × Tree),
    indentedMembers depth members = Layout.lines.memberChars depth members
  | [] => rfl
  | (name, value) :: members => by
      rw [indentedMembers, Layout.memberChars, indented_eq depth value,
        indentedMembers_eq depth members]
      rfl

end

mutual

theorem compact_eq (depth : Nat) : ∀ t : Tree, compact t = Layout.line.chars depth t
  | .list (item :: items) => by
      rw [compact, Layout.chars, compact_eq (depth + 1) item, compactItems_eq (depth + 1) items]
      simp [Layout.line, Blanks.none]
  | .object ((name, value) :: members) => by
      rw [compact, Layout.chars, compact_eq (depth + 1) value,
        compactMembers_eq (depth + 1) members]
      simp [Layout.line, Blanks.none]
  | .list [] => rfl
  | .object [] => rfl
  | .null => rfl
  | .bool _ => rfl
  | .int _ => rfl
  | .float _ => rfl
  | .text _ => rfl

theorem compactItems_eq (depth : Nat) :
    ∀ items : List Tree, compactItems items = Layout.line.itemChars depth items
  | [] => rfl
  | item :: items => by
      rw [compactItems, Layout.itemChars, compact_eq depth item, compactItems_eq depth items]
      rfl

theorem compactMembers_eq (depth : Nat) : ∀ members : List (String × Tree),
    compactMembers members = Layout.line.memberChars depth members
  | [] => rfl
  | (name, value) :: members => by
      rw [compactMembers, Layout.memberChars, compact_eq depth value,
        compactMembers_eq depth members]
      rfl

end

/-!
## Beginnings
-/

section Beginnings

variable {l : Layout}

theorem chars_eq_cons {t : Tree} (h : t.OfTexts) (depth : Nat) :
    ∃ c cs, l.chars depth t = c :: cs ∧ (c = '"' ∨ c = '[' ∨ c = '\x7b') := by
  cases h with
  | text s => exact ⟨_, _, rfl, Or.inl rfl⟩
  | @list items _ =>
      cases items with
      | nil => exact ⟨_, _, rfl, Or.inr (Or.inl rfl)⟩
      | cons item items => exact ⟨_, _, by rw [Layout.chars]; rfl, Or.inr (Or.inl rfl)⟩
  | @object members _ _ =>
      cases members with
      | nil => exact ⟨_, _, rfl, Or.inr (Or.inr rfl)⟩
      | cons m members => exact ⟨_, _, by rw [Layout.chars]; rfl, Or.inr (Or.inr rfl)⟩

theorem head?_chars {t : Tree} (h : t.OfTexts) (depth : Nat) (rest : List Char) :
    (l.chars depth t ++ rest).head? = some '"' ∨ (l.chars depth t ++ rest).head? = some '['
      ∨ (l.chars depth t ++ rest).head? = some '\x7b' := by
  rcases @chars_eq_cons l t h depth with ⟨c, cs, hcs, hc⟩
  rw [hcs]
  simpa using hc

theorem skipBlanks_chars {t : Tree} (h : t.OfTexts) (blanks : Blanks) (depth p : Nat)
    (rest : List Char) :
    (Cursor.mk p (blanks.chars ++ (l.chars depth t ++ rest))).skipBlanks =
      ⟨p + blanks.chars.length, l.chars depth t ++ rest⟩ := by
  rcases @chars_eq_cons l t h depth with ⟨c, cs, hcs, hc⟩
  rw [hcs]
  refine blanks.skip ?_ p (cs ++ rest)
  rcases hc with rfl | rfl | rfl <;> rfl

theorem literal_eq_cons (ascii : Bool) (s : String) :
    literal ascii s = '"' :: (s.toList.flatMap (literalChar ascii) ++ ['"']) := by
  rfl

theorem skipBlanks_literal (blanks : Blanks) (ascii : Bool) (p : Nat) (s : String)
    (rest : List Char) :
    (Cursor.mk p (blanks.chars ++ (literal ascii s ++ rest))).skipBlanks =
      ⟨p + blanks.chars.length, literal ascii s ++ rest⟩ :=
  blanks.skip rfl p _

end Beginnings

/-!
## Collections
-/

/-- A layout of a document, at any depth and in front of anything, is read as its value. -/
def ReadsBack (l : Layout) (t : Tree) : Prop :=
  ∀ depth fuel p rest, (l.chars depth t).length < fuel →
    readValue fuel ⟨p, l.chars depth t ++ rest⟩ =
      .ok (t.value, ⟨p + (l.chars depth t).length, rest⟩)

section Collections

variable {l : Layout}

theorem readsBack_text (s : String) : ReadsBack l (.text s) := by
  intro depth fuel p rest hfuel
  cases fuel with
  | zero => cases hfuel
  | succ fuel =>
      have hchars : l.chars depth (.text s) =
          '"' :: (s.toList.flatMap (literalChar l.ascii) ++ ['"']) := rfl
      rw [hchars, List.cons_append, List.append_assoc]
      show readText ⟨p + 1, s.toList.flatMap (literalChar l.ascii) ++ '"' :: rest⟩ = _
      rw [readText_literal, Tree.value_text, List.length_cons, List.length_append]
      simp only [List.length_singleton]
      congr 3
      omega

theorem readItems_itemChars (closing : Blanks) (depth : Nat) (rest : List Char)
    (items : List Tree) (hread : ∀ t ∈ items, t.OfTexts ∧ ReadsBack l t) :
    ∀ (item : Tree) (done : List Value) (fuel p : Nat), item.OfTexts ∧ ReadsBack l item →
      (l.chars depth item ++ l.itemChars depth items).length + 1 < fuel →
      readItems fuel done
          ⟨p, l.chars depth item ++ (l.itemChars depth items ++ (closing.chars ++ ']' :: rest))⟩ =
        .ok (.list (done.reverse ++ (item :: items).map Tree.value),
          ⟨p + (l.chars depth item ++ (l.itemChars depth items ++ closing.chars)).length + 1,
            rest⟩) := by
  induction items with
  | nil =>
      intro item done fuel p hitem hfuel
      cases fuel with
      | zero => cases hfuel
      | succ fuel =>
          rw [Layout.itemChars, List.append_nil] at hfuel
          rw [readItems, hitem.2 depth fuel p _ (by omega), Layout.itemChars, List.nil_append]
          simp only [bind, Except.bind]
          rw [closing.skip rfl]
          simp [Cursor.next, pure, Except.pure, Nat.add_assoc]
  | cons next items ih =>
      intro item done fuel p hitem hfuel
      cases fuel with
      | zero => cases hfuel
      | succ fuel =>
          have hnext := hread next List.mem_cons_self
          simp only [Layout.itemChars, List.length_append, List.length_cons] at hfuel
          rw [readItems, hitem.2 depth fuel p _ (by omega), Layout.itemChars]
          simp only [List.cons_append, List.append_assoc, bind, Except.bind]
          rw [skipBlanks_cons rfl]
          simp only [Cursor.next, List.head?_cons, List.drop_succ_cons, List.drop_zero]
          rw [skipBlanks_chars hnext.1,
            ih (fun t ht => hread t (List.mem_cons_of_mem _ ht)) next (item.value :: done) fuel _
              hnext (by simp only [List.length_append]; omega)]
          simp
          omega

theorem readMembers_member {t : Tree} (ht : t.OfTexts) (hread : ReadsBack l t) (name : String)
    (entries : List (Value × Value)) (depth fuel p : Nat) (rest : List Char)
    (hfuel : (l.chars depth t).length < fuel) :
    readMembers (fuel + 1) entries
        ⟨p, literal l.ascii name ++ (':' :: ' ' :: (l.chars depth t ++ rest))⟩ = (do
      let entries := Value.setEntry entries (.text name) t.value
      let c := (Cursor.mk (p + (literal l.ascii name).length + 2 + (l.chars depth t).length)
        rest).skipBlanks
      if c.rest.head? == some '\x7d' then return (.dict entries, c.next)
      unless c.rest.head? == some ',' do c.fail .comma
      readMembers fuel entries c.next.skipBlanks) := by
  have hskip : (Cursor.mk (p + (literal l.ascii name).length + 1)
      (' ' :: (l.chars depth t ++ rest))).skipBlanks =
        ⟨p + (literal l.ascii name).length + 2, l.chars depth t ++ rest⟩ :=
    skipBlanks_chars ht .one depth _ rest
  have hlength : p + (literal l.ascii name).length =
      p + 1 + (name.toList.flatMap (literalChar l.ascii)).length + 1 := by
    rw [literal_eq_cons]
    simp
    omega
  rw [hlength] at hskip ⊢
  rw [readMembers, literal_eq_cons]
  simp only [List.cons_append, List.append_assoc, Cursor.next, List.head?_cons,
    List.drop_succ_cons, List.drop_zero, beq_self_eq_true, List.nil_append]
  simp only [↓reduceIte, pure, Except.pure, bind, Except.bind]
  rw [readText_literal]
  dsimp only
  rw [skipBlanks_cons rfl]
  dsimp only
  simp only [List.head?_cons, beq_self_eq_true, List.drop_succ_cons, List.drop_zero, ↓reduceIte]
  rw [hskip, hread depth fuel _ _ hfuel]

theorem setEntry_entriesOf_of_nodup {done rest : List (String × Tree)} {name : String}
    {t : Tree} (h : ((done ++ (name, t) :: rest).map (·.1)).Nodup) :
    Value.setEntry (Value.entriesOf done) (.text name) t.value =
      Value.entriesOf (done ++ [(name, t)]) := by
  have hnew : name ∉ done.map (·.1) := by
    rw [List.map_append, List.nodup_append] at h
    intro hmem
    exact h.2.2 name hmem name (by simp) rfl
  rw [Value.setEntry_entriesOf hnew]
  simp [Value.entriesOf]

theorem readMembers_memberChars (closing : Blanks) (depth : Nat) (rest : List Char)
    (members : List (String × Tree)) (hread : ∀ m ∈ members, m.2.OfTexts ∧ ReadsBack l m.2) :
    ∀ (name : String) (t : Tree) (done : List (String × Tree)) (fuel p : Nat),
      t.OfTexts ∧ ReadsBack l t →
      ((done ++ (name, t) :: members).map (·.1)).Nodup →
      (l.chars depth t ++ l.memberChars depth members).length + 1 < fuel →
      readMembers fuel (Value.entriesOf done)
          ⟨p, literal l.ascii name ++ (':' :: ' ' :: (l.chars depth t ++
            (l.memberChars depth members ++ (closing.chars ++ '\x7d' :: rest))))⟩ =
        .ok (.dict (Value.entriesOf (done ++ (name, t) :: members)),
          ⟨p + (literal l.ascii name ++ (':' :: ' ' :: (l.chars depth t ++
            (l.memberChars depth members ++ closing.chars)))).length + 1, rest⟩) := by
  induction members with
  | nil =>
      intro name t done fuel p ht hnodup hfuel
      cases fuel with
      | zero => cases hfuel
      | succ fuel =>
          rw [Layout.memberChars, List.append_nil] at hfuel
          rw [readMembers_member ht.1 ht.2 _ _ _ _ _ _ (by omega), Layout.memberChars,
            List.nil_append, closing.skip rfl, setEntry_entriesOf_of_nodup hnodup]
          simp [Cursor.next, pure, Except.pure]
          omega
  | cons next members ih =>
      intro name t done fuel p ht hnodup hfuel
      cases fuel with
      | zero => cases hfuel
      | succ fuel =>
          have hnext := hread next List.mem_cons_self
          have hstep : done ++ (name, t) :: next :: members =
              (done ++ [(name, t)]) ++ next :: members := by simp
          simp only [Layout.memberChars, List.length_append, List.length_cons] at hfuel
          rw [readMembers_member ht.1 ht.2 _ _ _ _ _ _ (by omega),
            setEntry_entriesOf_of_nodup hnodup, Layout.memberChars]
          simp only [List.cons_append, List.append_assoc, List.nil_append, bind, Except.bind]
          rw [skipBlanks_cons rfl]
          simp only [Cursor.next, List.head?_cons, List.drop_succ_cons, List.drop_zero]
          rw [hstep] at hnodup ⊢
          have hrest := ih (fun m hm => hread m (List.mem_cons_of_mem _ hm)) next.1 next.2
            (done ++ [(name, t)]) fuel
            (p + (literal l.ascii name).length + 2 + (l.chars depth t).length + 1 +
              (l.separating depth).chars.length) hnext hnodup
            (by simp only [List.length_append]; omega)
          have hcomma : ((some ',' == some '\x7d') = true) = False := by simp
          simp only [hcomma, beq_self_eq_true, ↓reduceIte]
          rw [skipBlanks_literal, hrest]
          simp
          omega

end Collections

/-!
## Documents
-/

theorem readsBack_list (l : Layout) {item : Tree} {items : List Tree}
    (hitem : item.OfTexts ∧ ReadsBack l item) (hread : ∀ t ∈ items, t.OfTexts ∧ ReadsBack l t) :
    ReadsBack l (.list (item :: items)) := by
  intro depth fuel p rest hfuel
  cases fuel with
  | zero => cases hfuel
  | succ fuel =>
      simp only [Layout.chars, List.cons_append, List.append_assoc, List.length_cons,
        List.length_append, List.nil_append] at hfuel ⊢
      rw [readValue]
      dsimp only
      simp only [Cursor.next, List.drop_succ_cons, List.drop_zero]
      have hopen : ¬ ((l.chars (depth + 1) item ++ (l.itemChars (depth + 1) items ++
          ((l.closing depth).chars ++ ']' :: rest))).head? == some ']') = true := by
        rcases @head?_chars l item hitem.1 (depth + 1) _ with h | h | h <;> rw [h] <;> decide
      rw [skipBlanks_chars hitem.1, if_neg hopen,
        readItems_itemChars _ (depth + 1) rest items hread item [] fuel _ hitem
          (by simp only [List.length_append]; omega)]
      simp
      omega

theorem readsBack_object (l : Layout) {m : String × Tree} {members : List (String × Tree)}
    (hm : m.2.OfTexts ∧ ReadsBack l m.2)
    (hread : ∀ m ∈ members, m.2.OfTexts ∧ ReadsBack l m.2)
    (hnodup : ((m :: members).map (·.1)).Nodup) : ReadsBack l (.object (m :: members)) := by
  intro depth fuel p rest hfuel
  cases fuel with
  | zero => cases hfuel
  | succ fuel =>
      simp only [Layout.chars, List.cons_append, List.append_assoc, List.length_cons,
        List.length_append, List.nil_append] at hfuel ⊢
      have hopen : ¬ ((literal l.ascii m.1 ++ (':' :: ' ' :: (l.chars (depth + 1) m.2 ++
          (l.memberChars (depth + 1) members ++ ((l.closing depth).chars
            ++ '\x7d' :: rest))))).head? == some '\x7d') = true := by
        rw [literal_eq_cons, List.cons_append, List.head?_cons]
        decide
      have hmembers := readMembers_memberChars (l.closing depth) (depth + 1) rest members
        hread m.1 m.2 [] fuel (p + 1 + (l.opening (depth + 1)).chars.length) hm hnodup
        (by simp only [List.length_append]; omega)
      rw [readValue]
      dsimp only
      simp only [Cursor.next, List.drop_succ_cons, List.drop_zero]
      rw [skipBlanks_literal, if_neg hopen]
      show readMembers fuel (Value.entriesOf []) _ = _
      rw [hmembers]
      simp [Value.entriesOf]
      omega

theorem readsBack (l : Layout) {t : Tree} (h : t.OfTexts) : ReadsBack l t := by
  induction h with
  | text s => exact readsBack_text s
  | @list items hitems ih =>
      cases items with
      | nil =>
          intro depth fuel p rest hfuel
          cases fuel with
          | zero => cases hfuel
          | succ fuel => rfl
      | cons item items =>
          have hread : ∀ t ∈ item :: items, t.OfTexts ∧ ReadsBack l t :=
            fun t ht => ⟨hitems t ht, ih t ht⟩
          rcases List.forall_mem_cons.mp hread with ⟨hitem, hrest⟩
          exact readsBack_list l hitem hrest
  | @object members hnodup hmembers ih =>
      cases members with
      | nil =>
          intro depth fuel p rest hfuel
          cases fuel with
          | zero => cases hfuel
          | succ fuel => rfl
      | cons m members =>
          have hread : ∀ e ∈ m :: members, e.2.OfTexts ∧ ReadsBack l e.2 :=
            fun e he => ⟨hmembers e he, ih e he⟩
          rcases List.forall_mem_cons.mp hread with ⟨hm, hrest⟩
          exact readsBack_object l hm hrest hnodup

/-- A layout of a document of texts is read as its value, also with blanks behind it. -/
theorem readChars_chars (l : Layout) {t : Tree} (h : t.OfTexts) (behind : Blanks) :
    readChars (l.chars 0 t ++ behind.chars) = .ok t.value := by
  have hmark : ¬ ((l.chars 0 t ++ behind.chars).head? == some (Char.ofNat 0xFEFF)) = true := by
    rcases @head?_chars l t h 0 behind.chars with h | h | h <;> rw [h] <;> decide
  have hstart : (Cursor.mk 0 (l.chars 0 t ++ behind.chars)).skipBlanks =
      ⟨0, l.chars 0 t ++ behind.chars⟩ :=
    skipBlanks_chars h .none 0 0 behind.chars
  have hlength : (l.chars 0 t).length < (l.chars 0 t ++ behind.chars).length + 1 := by
    rw [List.length_append]
    omega
  have hend : (Cursor.mk (0 + (l.chars 0 t).length) behind.chars).skipBlanks.rest = [] := by
    have hskip := @skipBlanks_append behind.chars [] behind.blank (by simp)
      (0 + (l.chars 0 t).length)
    rw [List.append_nil] at hskip
    rw [hskip]
  rw [readChars, if_neg hmark]
  simp only [bind, Except.bind, pure, Except.pure, hstart]
  rw [readsBack l h 0 _ 0 behind.chars hlength]
  simp only [hend]
  rfl

theorem read_print {t : Tree} (h : t.IsText) : read (print t) = .ok t.value := by
  rw [read, print, String.toList_ofList, indented_eq]
  exact readChars_chars .lines h.ofTexts (.ofChar '\n' rfl)

theorem read_printLine {t : Tree} (h : t.OfTexts) : read (printLine t) = .ok t.value := by
  have hchars := readChars_chars .line h .none
  rw [read, printLine, String.toList_ofList, compact_eq 0]
  rwa [show Blanks.none.chars = [] from rfl, List.append_nil] at hchars

end Json
end TextMate
