import Mathlib.Computability.RegularExpressions
import TextMate.Proofs.Grammar.Codes

/-!
# Scope names

A dotted name consists of words with points between, and a word of letters,
digits and a few signs.  Three descriptions of the names that pass the check are
compared: by joining words, by splitting at every point, and by a regular
expression whose end may stand in front of a line feed.  They agree but for that
line feed: a dotted name with a line feed behind it passes the check, although it
is no dotted name.  The main result says that these are the only names of which a
report should warn and does not.
-/

namespace TextMate
namespace ScopeName

def letters : List Char :=
  "ABCDEFGHIJKLMNOPQRSTUVWXYZabcdefghijklmnopqrstuvwxyz0123456789_+-".toList

def IsWord (w : List Char) : Prop :=
  w ≠ [] ∧ ∀ c ∈ w, c ∈ letters

/-- Words with points between. -/
def IsDotted (cs : List Char) : Prop :=
  ∃ words : List (List Char), words ≠ [] ∧ (∀ w ∈ words, IsWord w)
    ∧ cs = ['.'].intercalate words

/-- A dotted name with one line feed behind it. -/
def IsDottedLine (cs : List Char) : Prop :=
  ∃ name, IsDotted name ∧ cs = name ++ ['\n']

/-!
## Words and pieces
-/

theorem isScopeChar_eq_true_iff (c : Char) : isScopeChar c = true ↔ c ∈ letters := by
  have hascii : ∀ n < 0x80, isScopeChar (Char.ofNat n) = true ↔ Char.ofNat n ∈ letters := by
    decide +kernel
  have hall : (letters.all fun c => decide (c.toNat < 0x80)) = true := by decide
  have hbound : ∀ c ∈ letters, c.toNat < 0x80 := by simpa using hall
  constructor
  · intro h
    have hlt : c.toNat < 0x80 := by
      simp only [isScopeChar, Bool.or_eq_true, Bool.and_eq_true, decide_eq_true_eq,
        beq_iff_eq] at h
      rcases h with ((⟨_, h⟩ | rfl) | rfl) | rfl
      · exact h
      · decide
      · decide
      · decide
    rw [← Char.ofNat_toNat c] at h ⊢
    exact (hascii _ hlt).mp h
  · intro h
    have hlt := hbound c h
    rw [← Char.ofNat_toNat c] at h ⊢
    exact (hascii _ hlt).mpr h

theorem isDotted_iff_splitOn (cs : List Char) :
    IsDotted cs ↔ ∀ w ∈ cs.splitOn '.', IsWord w := by
  constructor
  · rintro ⟨words, hne, hwords, rfl⟩
    have hpoint : ∀ w ∈ words, '.' ∉ w := by
      intro w hw hmem
      exact absurd ((hwords w hw).2 _ hmem) (by decide)
    rw [List.splitOn_intercalate '.' hpoint hne]
    exact hwords
  · intro h
    exact ⟨cs.splitOn '.', List.splitOn_ne_nil _ _, h, (List.intercalate_splitOn '.').symm⟩

theorem all_splitOn_eq_true_iff (cs : List Char) :
    ((cs.splitOn '.').all fun word => !word.isEmpty && word.all isScopeChar) = true ↔
      IsDotted cs := by
  rw [isDotted_iff_splitOn, List.all_eq_true]
  apply forall₂_congr
  intro w _
  rw [IsWord, Bool.and_eq_true, Bool.not_eq_true', List.isEmpty_eq_false_iff, List.all_eq_true]
  simp only [isScopeChar_eq_true_iff]

/-!
## The line feed
-/

theorem intercalate_cons_eq (word : List Char) (words : List (List Char)) :
    ['.'].intercalate (word :: words) = word ++ words.flatMap ('.' :: ·) := by
  induction words generalizing word with
  | nil => simp
  | cons next words ih =>
      rw [List.intercalate_cons_cons, ih, List.flatMap_cons, List.append_assoc]
      rfl

theorem isDotted_iff_cons (cs : List Char) :
    IsDotted cs ↔
      ∃ word, ∃ words : List (List Char), IsWord word ∧ (∀ w ∈ words, IsWord w)
        ∧ cs = word ++ words.flatMap ('.' :: ·) := by
  constructor
  · rintro ⟨words, hne, hwords, rfl⟩
    rcases List.exists_cons_of_ne_nil hne with ⟨word, rest, rfl⟩
    rw [List.forall_mem_cons] at hwords
    exact ⟨word, rest, hwords.1, hwords.2, intercalate_cons_eq word rest⟩
  · rintro ⟨word, words, hword, hwords, rfl⟩
    exact ⟨word :: words, List.cons_ne_nil _ _, List.forall_mem_cons.mpr ⟨hword, hwords⟩,
      (intercalate_cons_eq word words).symm⟩

theorem IsDotted.not_mem {cs : List Char} (h : IsDotted cs) : '\n' ∉ cs := by
  have hword : ∀ w, IsWord w → '\n' ∉ w := by
    intro w hw hmem
    exact absurd (hw.2 _ hmem) (by decide)
  rcases (isDotted_iff_cons cs).mp h with ⟨word, words, hfirst, hothers, rfl⟩
  intro hmem
  rcases List.mem_append.mp hmem with hmem | hmem
  · exact hword word hfirst hmem
  · rcases List.mem_flatMap.mp hmem with ⟨w, hw, hmem⟩
    rcases List.mem_cons.mp hmem with hmem | hmem
    · cases hmem
    · exact hword w (hothers w hw) hmem

theorem IsDottedLine.not_isDotted {cs : List Char} (h : IsDottedLine cs) : ¬ IsDotted cs := by
  rcases h with ⟨name, _, rfl⟩
  intro hdotted
  exact hdotted.not_mem (by simp)

theorem isScopeName_eq_true_iff (s : String) :
    isScopeName s = true ↔ IsDotted s.toList ∨ IsDottedLine s.toList := by
  unfold isScopeName
  dsimp only
  rw [all_splitOn_eq_true_iff]
  split
  · rename_i hlast
    rcases List.getLast?_eq_some_iff.mp (beq_iff_eq.mp hlast) with ⟨name, hname⟩
    rw [hname, List.dropLast_concat]
    constructor
    · intro h
      exact Or.inr ⟨name, h, rfl⟩
    · rintro (h | ⟨other, hother, heq⟩)
      · exact absurd (by simp) h.not_mem
      · rw [List.append_cancel_right heq]
        exact hother
  · rename_i hlast
    constructor
    · exact Or.inl
    · rintro (h | ⟨name, _, heq⟩)
      · exact h
      · rw [heq, List.getLast?_concat] at hlast
        exact absurd rfl hlast

/-!
## The expression
-/

def letterExpression : RegularExpression Char :=
  (letters.map .char).sum

def wordExpression : RegularExpression Char :=
  letterExpression * letterExpression.star

def dottedExpression : RegularExpression Char :=
  wordExpression * (.char '.' * wordExpression).star

/-- A dotted name at whose end a line feed may stand. -/
def nameExpression : RegularExpression Char :=
  dottedExpression * (1 + .char '\n')

theorem mem_letterExpression_iff (cs : List Char) :
    cs ∈ letterExpression.matches' ↔ ∃ c ∈ letters, cs = [c] := by
  have hsum : ∀ alphabet : List Char,
      cs ∈ (alphabet.map RegularExpression.char).sum.matches' ↔ ∃ c ∈ alphabet, cs = [c] := by
    intro alphabet
    induction alphabet with
    | nil => simp [Language.notMem_zero]
    | cons a alphabet ih =>
        rw [List.map_cons, List.sum_cons, RegularExpression.matches'_add, Language.mem_add, ih,
          RegularExpression.matches'_char, List.exists_mem_cons_iff]
        exact Iff.rfl
  exact hsum letters

theorem mem_star_letterExpression_iff (cs : List Char) :
    cs ∈ letterExpression.star.matches' ↔ ∀ c ∈ cs, c ∈ letters := by
  rw [RegularExpression.matches'_star, Language.mem_kstar]
  constructor
  · rintro ⟨parts, rfl, hparts⟩ c hc
    rcases List.mem_flatten.mp hc with ⟨part, hpart, hc⟩
    rcases (mem_letterExpression_iff part).mp (hparts part hpart) with ⟨d, hd, rfl⟩
    rw [List.mem_singleton.mp hc]
    exact hd
  · intro h
    refine ⟨cs.map fun c => [c], ?_, ?_⟩
    · rw [← List.flatMap_def, List.flatMap_singleton']
    rw [List.forall_mem_map]
    intro c hc
    exact (mem_letterExpression_iff _).mpr ⟨c, h c hc, rfl⟩

theorem mem_wordExpression_iff (cs : List Char) :
    cs ∈ wordExpression.matches' ↔ IsWord cs := by
  rw [wordExpression, RegularExpression.matches'_mul, Language.mem_mul]
  constructor
  · rintro ⟨first, hfirst, rest, hrest, rfl⟩
    rcases (mem_letterExpression_iff first).mp hfirst with ⟨c, hc, rfl⟩
    have hrest := (mem_star_letterExpression_iff rest).mp hrest
    exact ⟨List.cons_ne_nil _ _, List.forall_mem_cons.mpr ⟨hc, hrest⟩⟩
  · rintro ⟨hne, h⟩
    rcases List.exists_cons_of_ne_nil hne with ⟨c, rest, rfl⟩
    rw [List.forall_mem_cons] at h
    exact ⟨[c], (mem_letterExpression_iff _).mpr ⟨c, h.1, rfl⟩, rest,
      (mem_star_letterExpression_iff rest).mpr h.2, rfl⟩

theorem mem_star_point_word_iff (cs : List Char) :
    cs ∈ (RegularExpression.char '.' * wordExpression).star.matches' ↔
      ∃ words : List (List Char), (∀ w ∈ words, IsWord w) ∧ cs = words.flatMap ('.' :: ·) := by
  rw [RegularExpression.matches'_star, Language.mem_kstar]
  constructor
  · rintro ⟨parts, rfl, hparts⟩
    induction parts with
    | nil => exact ⟨[], List.forall_mem_nil _, rfl⟩
    | cons part parts ih =>
        rw [List.forall_mem_cons] at hparts
        rcases ih hparts.2 with ⟨words, hwords, hrest⟩
        rcases Language.mem_mul.mp hparts.1 with ⟨point, hpoint, word, hword, rfl⟩
        have hword := (mem_wordExpression_iff word).mp hword
        refine ⟨word :: words, List.forall_mem_cons.mpr ⟨hword, hwords⟩, ?_⟩
        rw [List.flatten_cons, hrest, show point = ['.'] from hpoint]
        rfl
  · rintro ⟨words, hwords, rfl⟩
    refine ⟨words.map ('.' :: ·), List.flatMap_def, ?_⟩
    rw [List.forall_mem_map]
    intro w hw
    exact Language.mem_mul.mpr
      ⟨['.'], rfl, w, (mem_wordExpression_iff w).mpr (hwords w hw), rfl⟩

theorem mem_dottedExpression_iff (cs : List Char) :
    cs ∈ dottedExpression.matches' ↔ IsDotted cs := by
  rw [dottedExpression, RegularExpression.matches'_mul, Language.mem_mul, isDotted_iff_cons]
  simp only [mem_wordExpression_iff, mem_star_point_word_iff]
  constructor
  · rintro ⟨word, hword, _, ⟨words, hwords, rfl⟩, rfl⟩
    exact ⟨word, words, hword, hwords, rfl⟩
  · rintro ⟨word, words, hword, hwords, rfl⟩
    exact ⟨word, hword, _, ⟨words, hwords, rfl⟩, rfl⟩

theorem mem_nameExpression_iff (cs : List Char) :
    cs ∈ nameExpression.matches' ↔ IsDotted cs ∨ IsDottedLine cs := by
  rw [nameExpression, RegularExpression.matches'_mul, Language.mem_mul]
  simp only [mem_dottedExpression_iff]
  constructor
  · rintro ⟨name, hname, feed, hfeed, rfl⟩
    rcases (Language.mem_add _ _ _).mp hfeed with rfl | hfeed
    · rw [List.append_nil]
      exact Or.inl hname
    · rw [show feed = ['\n'] from hfeed]
      exact Or.inr ⟨name, hname, rfl⟩
  · rintro (h | ⟨name, hname, rfl⟩)
    · exact ⟨cs, h, [], Or.inl rfl, List.append_nil _⟩
    · exact ⟨name, hname, ['\n'], Or.inr rfl, rfl⟩

end ScopeName

/-!
## Warnings of a report
-/

/-- Whether an issue is the warning about a scope name that is not dotted. -/
def Issue.WarnsOfScopeName (i : Issue) : Prop :=
  i.severity = .warning ∧ i.code = "INVALID_SCOPE_NAME"

namespace Report

def WarnsOfScopeName (r : Report) : Prop :=
  ∃ i ∈ r.issues, i.WarnsOfScopeName

theorem warnsOfScopeName_report_iff (g : Grammar) :
    g.report.WarnsOfScopeName ↔ isScopeName g.header.scopeName ≠ true := by
  have hissues : ∀ i, (i ∈ g.report.issues ∧ i.code = "INVALID_SCOPE_NAME") ↔
      i ∈ ofScopeName g.header.scopeName := by
    intro i
    rw [← withCode_scopeName, withCode, List.mem_filter, beq_iff_eq]
  constructor
  · rintro ⟨i, hi, hwarns⟩ hname
    have hfound := (hissues i).mp ⟨hi, hwarns.2⟩
    rw [ofScopeName, if_pos hname] at hfound
    cases hfound
  · intro hname
    have hfound : Issue.scopeName g.header.scopeName ∈ ofScopeName g.header.scopeName := by
      rw [ofScopeName, if_neg hname]
      exact List.mem_singleton.mpr rfl
    exact ⟨_, ((hissues _).mpr hfound).1, rfl, rfl⟩

/-- A report warns of the scope names that the expression does not describe.  These are the ones
that are neither dotted nor dotted with a line feed behind; so it is only the latter ones of which
a report does not warn although they are not dotted, although splitting them at their points
shows it. -/
theorem scope_name_warning_misses_line_feed_only (g : Grammar) :
    (g.report.WarnsOfScopeName ↔
        g.header.scopeName.toList ∉ ScopeName.nameExpression.matches')
      ∧ (g.report.WarnsOfScopeName ↔
          ¬ ScopeName.IsDotted g.header.scopeName.toList
            ∧ ¬ ScopeName.IsDottedLine g.header.scopeName.toList)
      ∧ (ScopeName.IsDotted g.header.scopeName.toList ↔
          ∀ w ∈ g.header.scopeName.toList.splitOn '.', ScopeName.IsWord w)
      ∧ ((g.report.WarnsOfScopeName ↔ ¬ ScopeName.IsDotted g.header.scopeName.toList) ↔
          ¬ ScopeName.IsDottedLine g.header.scopeName.toList) := by
  have hwarns : g.report.WarnsOfScopeName ↔
      ¬ (ScopeName.IsDotted g.header.scopeName.toList
        ∨ ScopeName.IsDottedLine g.header.scopeName.toList) := by
    rw [warnsOfScopeName_report_iff, ne_eq, ScopeName.isScopeName_eq_true_iff]
  refine ⟨?_, ?_, ScopeName.isDotted_iff_splitOn _, ?_⟩
  · rw [hwarns, ScopeName.mem_nameExpression_iff]
  · rw [hwarns, not_or]
  · rw [hwarns, not_or]
    constructor
    · intro hsame hline
      exact (hsame.mpr hline.not_isDotted).2 hline
    · intro hline
      exact and_iff_left hline

end Report
end TextMate
