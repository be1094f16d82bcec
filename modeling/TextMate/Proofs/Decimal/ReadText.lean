import TextMate.Decimal.Numeral
import TextMate.Proofs.Decimal.Shortest
import TextMate.Proofs.Text.WholeNumber

/-!
# Reading the texts of numbers

The text of a number reads back as the number.  A text gives the digits of its
number with a point among or before them, or behind zeros, or with a power of ten;
in each of these forms it is read as digits of the same value.  So numbers with the
same text are the same.
-/

namespace TextMate
namespace Decimal

open Text

/-!
## Digits
-/

theorem toNat_of_isDigit {c : Char} (h : c.isDigit = true) : 48 ≤ c.toNat ∧ c.toNat ≤ 57 := by
  simp only [Char.isDigit, Bool.and_eq_true, decide_eq_true_eq] at h
  exact ⟨UInt32.le_iff_toNat_le.mp h.1, UInt32.le_iff_toNat_le.mp h.2⟩

def valueOf (c : Char) : Nat :=
  c.toNat - '0'.toNat

theorem decimalValue?_of_isDigit {c : Char} (h : c.isDigit = true) :
    decimalValue? c = some (valueOf c) := by
  have hsmall : c.toNat < 0x80 := Nat.lt_of_le_of_lt (toNat_of_isDigit h).2 (by decide)
  rw [decimalValue?, if_pos hsmall, if_pos h]
  rfl

/-- Whether digits end in front of a text: a point, a power of ten or nothing follows. -/
def EndsDigits (rest : List Char) : Prop :=
  ∀ c ∈ rest.head?, c = '.' ∨ c = 'e'

theorem takeDigits_of_ends {rest : List Char} (h : EndsDigits rest) :
    takeDigits rest = ([], rest) := by
  cases rest with
  | nil => rfl
  | cons c rest =>
      have hc : decimalValue? c = none := by
        rcases h c rfl with rfl | rfl
        · decide
        · decide
      unfold takeDigits
      split
      · rename_i heq
        cases heq
      · rename_i heq
        cases heq
        rw [hc]
      · rename_i heq
        cases heq
        rw [hc]

theorem takeDigits_cons {c : Char} {n : Nat} {rest : List Char} (hc : decimalValue? c = some n)
    (hrest : ∀ d ∈ rest.head?, d ≠ '_') :
    takeDigits (c :: rest) = (n :: (takeDigits rest).1, (takeDigits rest).2) := by
  rw [takeDigits]
  · rw [hc]
  · rintro next behind rfl
    exact hrest '_' rfl rfl

theorem takeDigits_append {ds rest : List Char} (hds : ∀ c ∈ ds, c.isDigit = true)
    (hrest : EndsDigits rest) :
    takeDigits (ds ++ rest) = (ds.map valueOf, rest) := by
  induction ds with
  | nil => exact takeDigits_of_ends hrest
  | cons c ds ih =>
      have hnext : ∀ d ∈ (ds ++ rest).head?, d ≠ '_' := by
        rintro d hd rfl
        cases ds with
        | nil => rcases hrest '_' hd with h | h <;> cases h
        | cons d ds =>
            cases hd
            exact absurd (hds '_' (by simp)) (by decide)
      rw [List.cons_append, takeDigits_cons (decimalValue?_of_isDigit (hds c List.mem_cons_self))
        hnext, ih fun d hd => hds d (List.mem_cons_of_mem _ hd)]
      rfl

theorem ofDigits_map (ds : List Char) :
    ofDigits 10 (ds.map valueOf) = Nat.ofDigitChars 10 ds 0 := by
  unfold ofDigits Nat.ofDigitChars valueOf
  rw [List.foldl_map]
  simp only [Nat.mul_comm]

theorem ofDigitChars_zeros_append (k : Nat) (ds : List Char) :
    Nat.ofDigitChars 10 (List.replicate k '0' ++ ds) 0 = Nat.ofDigitChars 10 ds 0 := by
  induction k with
  | zero => rfl
  | succ k ih => rw [← ih]; rfl

theorem ofDigitChars_append_zeros (ds : List Char) (k : Nat) :
    Nat.ofDigitChars 10 (ds ++ List.replicate k '0') 0 = Nat.ofDigitChars 10 ds 0 * 10 ^ k := by
  induction k with
  | zero => simp
  | succ k ih =>
      rw [List.replicate_succ', ← List.append_assoc, Nat.ofDigitChars_append, ih]
      show 10 * _ + 0 = _
      ring

/-!
## Magnitudes
-/

theorem readMagnitude_point (negative : Bool) (whole fractional : List Char) {rest : List Char}
    {power : Int}
    (hwhole : ∀ c ∈ whole, c.isDigit = true) (hne : whole ≠ [])
    (hfractional : ∀ c ∈ fractional, c.isDigit = true) (hrest : EndsDigits rest)
    (hpower : readPower rest = some power) :
    readMagnitude negative (whole ++ '.' :: (fractional ++ rest)) =
      some (Binary64.ofDecimal negative (Nat.ofDigitChars 10 (whole ++ fractional) 0)
        (power - fractional.length)) := by
  have hends : EndsDigits ('.' :: (fractional ++ rest)) := by
    rintro c hc
    cases hc
    exact Or.inl rfl
  rw [readMagnitude, takeDigits_append hwhole hends]
  simp only [takeDigits_append hfractional hrest, hpower, Option.map_some, ← List.map_append,
    ofDigits_map, List.length_map, List.isEmpty_map]
  rw [if_neg]
  simp [hne]

theorem readMagnitude_whole (negative : Bool) {whole rest : List Char} {power : Int}
    (hwhole : ∀ c ∈ whole, c.isDigit = true) (hne : whole ≠ []) (hrest : EndsDigits rest)
    (hpoint : rest.head? ≠ some '.') (hpower : readPower rest = some power) :
    readMagnitude negative (whole ++ rest) =
      some (Binary64.ofDecimal negative (Nat.ofDigitChars 10 whole 0) power) := by
  rw [readMagnitude, takeDigits_append hwhole hrest]
  cases rest with
  | nil => simp [hne, hpower, ofDigits_map]
  | cons c rest =>
      rcases hrest c rfl with rfl | rfl
      · exact absurd rfl hpoint
      · simp [hne, hpower, ofDigits_map]

namespace Binary64

variable {digits : Nat} {unit : Int}

theorem isDigit_of_mem_zeros {k : Nat} {c : Char} (hc : c ∈ List.replicate k '0') :
    c.isDigit = true := by
  rw [List.eq_of_mem_replicate hc]
  decide

section Positional

variable (negative : Bool) {cs : List Char} (hdigits : ∀ c ∈ cs, c.isDigit = true)
include hdigits

theorem readMagnitude_behind_point (hpoint : unit + cs.length ≤ 0) :
    readMagnitude negative (positional cs (unit + cs.length)) =
      some (ofDecimal negative (Nat.ofDigitChars 10 cs 0) unit) := by
  have hbehind : ∀ c ∈ List.replicate (-(unit + (cs.length : Int))).toNat '0' ++ cs,
      c.isDigit = true := by
    intro c hc
    rcases List.mem_append.mp hc with hc | hc
    · exact isDigit_of_mem_zeros hc
    · exact hdigits c hc
  have hread := readMagnitude_point negative ['0'] _ (fun c => isDigit_of_mem_zeros (k := 1))
    (by simp) hbehind (by simp [EndsDigits] : EndsDigits []) rfl
  rw [positional, if_pos hpoint]
  refine (congrArg (readMagnitude negative) (by simp)).trans (hread.trans ?_)
  rw [← List.append_assoc, show ['0'] ++ List.replicate _ '0' = List.replicate (_ + 1) '0' from rfl,
    ofDigitChars_zeros_append]
  congr 2
  simp
  omega

theorem readMagnitude_around_point (hpoint : 0 < unit + cs.length) (hunit : unit < 0) :
    readMagnitude negative (positional cs (unit + cs.length)) =
      some (ofDecimal negative (Nat.ofDigitChars 10 cs 0) unit) := by
  generalize hplace : (unit + (cs.length : Int)).toNat = place
  have hread := readMagnitude_point negative (cs.take place) (cs.drop place)
    (fun c hc => hdigits c (List.mem_of_mem_take hc))
    (by rw [← List.length_pos_iff, List.length_take]; omega)
    (fun c hc => hdigits c (List.mem_of_mem_drop hc)) (by simp [EndsDigits] : EndsDigits []) rfl
  have hlength : place - (cs.take place).length = 0 := by
    rw [List.length_take]
    omega
  have hsome : ¬ (cs.drop place).isEmpty = true := by
    rw [List.isEmpty_iff, List.drop_eq_nil_iff]
    omega
  rw [positional, if_neg (by omega), hplace]
  dsimp only
  rw [if_neg hsome, hlength]
  refine (congrArg (readMagnitude negative) (by simp)).trans (hread.trans ?_)
  rw [List.take_append_drop]
  congr 2
  simp
  omega

theorem readMagnitude_before_point (hne : cs ≠ []) (hunit : 0 ≤ unit)
    (h : IsModest (Nat.ofDigitChars 10 cs 0) unit) :
    readMagnitude negative (positional cs (unit + cs.length)) =
      some (ofDecimal negative (Nat.ofDigitChars 10 cs 0) unit) := by
  obtain ⟨k, rfl⟩ := Int.eq_ofNat_of_zero_le hunit
  have hlength := List.length_pos_iff.mpr hne
  have hbefore : ∀ c ∈ cs ++ List.replicate k '0', c.isDigit = true := by
    intro c hc
    rcases List.mem_append.mp hc with hc | hc
    · exact hdigits c hc
    · exact isDigit_of_mem_zeros hc
  have hread := readMagnitude_point negative _ ['0'] hbefore (by simp [hne])
    (fun c => isDigit_of_mem_zeros (k := 1)) (by simp [EndsDigits] : EndsDigits []) rfl
  have hplace : ((k : Int) + cs.length).toNat = k + cs.length := by omega
  rw [positional, if_neg (by omega), hplace]
  dsimp only
  rw [List.take_of_length_le (by omega), List.drop_of_length_le (by omega),
    Nat.add_sub_cancel]
  refine (congrArg (readMagnitude negative) (by simp)).trans (hread.trans ?_)
  rw [List.append_assoc, show List.replicate _ '0' ++ ['0'] = List.replicate (_ + 1) '0' from
    List.replicate_succ'.symm, ofDigitChars_append_zeros]
  congr 1
  -- the zeros are in the number that is read, and the power of ten is below the point
  have hshift : IsModest (Nat.ofDigitChars 10 cs 0 * 10 ^ (k + 1)) (-1) :=
    ⟨Nat.mul_pos h.pos (Nat.pow_pos (by decide)), by decide, by decide⟩
  refine ofDecimal_congr hshift h ?_ negative
  rw [zpow_natCast, pow_succ]
  push_cast
  norm_num
  ring

end Positional

theorem readMagnitude_positional (negative : Bool) (h : IsModest digits unit) :
    readMagnitude negative
        (positional (toString digits).toList (unit + (toString digits).toList.length)) =
      some (ofDecimal negative digits unit) := by
  have hdigits : ∀ c ∈ (toString digits).toList, c.isDigit = true :=
    fun c => isDigit_of_mem_toString
  have hvalue := ofDigitChars_toString digits
  have hne := toString_toList_ne_nil digits
  generalize (toString digits).toList = cs at hdigits hvalue hne
  subst hvalue
  by_cases hpoint : unit + cs.length ≤ 0
  · exact readMagnitude_behind_point negative hdigits hpoint
  by_cases hunit : unit < 0
  · exact readMagnitude_around_point negative hdigits (not_le.mp hpoint) hunit
  · exact readMagnitude_before_point negative hdigits hne (not_lt.mp hunit) h

theorem readPower_of_digits {power : Int} {ds : List Char} (hds : ∀ c ∈ ds, c.isDigit = true)
    (hne : ds ≠ []) (hvalue : Nat.ofDigitChars 10 ds 0 = power.natAbs) :
    readPower ('e' :: (if power < 0 then '-' else '+') :: ds) = some power := by
  have htake : takeDigits (ds ++ []) = (ds.map valueOf, []) :=
    takeDigits_append hds (by simp [EndsDigits])
  rw [List.append_nil] at htake
  have hdigits := ofDigits_map ds
  rw [hvalue] at hdigits
  rcases List.exists_cons_of_ne_nil hne with ⟨d, ds, rfl⟩
  rw [List.map_cons] at htake hdigits
  by_cases hnegative : power < 0
  · rw [if_pos hnegative]
    simp [readPower, splitSign, htake, hdigits, abs_of_neg hnegative]
  · rw [if_neg hnegative]
    simp [readPower, splitSign, htake, hdigits, abs_of_nonneg (not_lt.mp hnegative)]

theorem readPower_shown {power : Int} {amount : List Char}
    (h : (toString power.natAbs).toList = amount) :
    readPower ('e' :: (if power < 0 then '-' else '+')
      :: (if amount.length < 2 then '0' :: amount else amount)) = some power := by
  have hdigits : ∀ c ∈ amount, c.isDigit = true := h ▸ fun c => isDigit_of_mem_toString
  have hne : amount ≠ [] := h ▸ toString_toList_ne_nil _
  have hvalue : Nat.ofDigitChars 10 amount 0 = power.natAbs := h ▸ ofDigitChars_toString _
  by_cases hshort : amount.length < 2
  · rw [if_pos hshort]
    apply readPower_of_digits
    · intro c hc
      rcases List.mem_cons.mp hc with rfl | hc
      · decide
      · exact hdigits c hc
    · exact List.cons_ne_nil _ _
    · exact (ofDigitChars_zeros_append 1 amount).trans hvalue
  · rw [if_neg hshort]
    exact readPower_of_digits hdigits hne hvalue

theorem readMagnitude_scientific (negative : Bool) (digits : Nat) (unit : Int) :
    readMagnitude negative
        (scientific (toString digits).toList (unit + (toString digits).toList.length - 1)) =
      some (ofDecimal negative digits unit) := by
  have hdigits : ∀ c ∈ (toString digits).toList, c.isDigit = true :=
    fun c => isDigit_of_mem_toString
  have hvalue := ofDigitChars_toString digits
  have hne := toString_toList_ne_nil digits
  generalize (toString digits).toList = cs at hdigits hvalue hne
  generalize hpower : unit + (cs.length : Int) - 1 = power
  unfold scientific
  generalize hamount : (toString power.natAbs).toList = amount
  have hread := readPower_shown hamount
  dsimp only
  generalize (if amount.length < 2 then '0' :: amount else amount) = shown at hread ⊢
  have hends : EndsDigits ('e' :: (if power < 0 then '-' else '+') :: shown) := by
    intro c hc
    cases hc
    exact Or.inr rfl
  rcases List.exists_cons_of_ne_nil hne with ⟨d, ds, rfl⟩
  cases ds with
  | nil =>
      refine (readMagnitude_whole negative hdigits hne hends (by simp) hread).trans ?_
      rw [hvalue, ← hpower]
      congr 2
      simp
  | cons d' ds =>
      have hfirst : ∀ c ∈ [d], c.isDigit = true := by
        intro c hc
        rw [List.mem_singleton.mp hc]
        exact hdigits d List.mem_cons_self
      have hothers : ∀ c ∈ d' :: ds, c.isDigit = true :=
        fun c hc => hdigits c (List.mem_cons_of_mem _ hc)
      refine (congrArg (readMagnitude negative) (by simp)).trans ((readMagnitude_point negative
        [d] (d' :: ds) hfirst (List.cons_ne_nil _ _) hothers hends hread).trans ?_)
      rw [List.singleton_append, hvalue, ← hpower]
      congr 2
      simp
      omega

theorem readMagnitude_magnitudeText (negative : Bool) {m : Nat} {e : Int}
    (h : (finite false m e).IsCanonical) :
    readMagnitude negative (magnitudeText m e) = some (finite negative m e) := by
  unfold magnitudeText
  by_cases hm : m = 0
  · have he : e = minExponent := by
      rcases h.2.2.2 with hfull | he
      · rw [hm] at hfull
        exact absurd hfull (by decide)
      · exact he
    rw [hm, he]
    rfl
  · rw [if_neg (by simpa using hm)]
    rcases shortestDigits_spec h (Nat.pos_of_ne_zero hm) with ⟨hmodest, _, hread⟩
    generalize shortestDigits m e = shortest at hmodest hread
    dsimp only
    rw [← hread negative]
    split
    · exact readMagnitude_positional negative hmodest
    · exact readMagnitude_scientific negative _ _

/-!
## Texts
-/

structure IsMagnitude (cs : List Char) : Prop where
  chars : ∀ c ∈ cs, c.isDigit = true ∨ c ∈ ['.', 'e', '+', '-']
  first : ∃ c ∈ cs.head?, c.isDigit = true
  mark : '.' ∈ cs ∨ 'e' ∈ cs

theorem isMagnitude_positional {cs : List Char} (hdigits : ∀ c ∈ cs, c.isDigit = true)
    (hne : cs ≠ []) (point : Int) : IsMagnitude (positional cs point) := by
  have hzeros : ∀ k, ∀ c ∈ List.replicate k '0', c.isDigit = true := by
    intro k c hc
    rw [List.eq_of_mem_replicate hc]
    decide
  unfold positional
  by_cases hpoint : point ≤ 0
  · rw [if_pos hpoint]
    refine ⟨?_, ⟨'0', rfl, by decide⟩, Or.inl (by simp)⟩
    intro c hc
    simp only [List.mem_append, List.mem_cons, List.not_mem_nil, or_false] at hc
    rcases hc with ((rfl | rfl) | hc) | hc
    · exact Or.inl (by decide)
    · exact Or.inr (by decide)
    · exact Or.inl (hzeros _ c hc)
    · exact Or.inl (hdigits c hc)
  · rw [if_neg hpoint]
    rcases List.exists_cons_of_ne_nil hne with ⟨d, ds, rfl⟩
    obtain ⟨k, hk⟩ : ∃ k, point.toNat = k + 1 := ⟨point.toNat - 1, by omega⟩
    rw [hk]
    refine ⟨?_, ⟨d, rfl, hdigits d List.mem_cons_self⟩, Or.inl (by simp)⟩
    intro c hc
    dsimp only at hc
    simp only [List.mem_append, List.mem_singleton] at hc
    rcases hc with ((hc | hc) | rfl) | hc
    · exact Or.inl (hdigits c (List.mem_of_mem_take hc))
    · exact Or.inl (hzeros _ c hc)
    · exact Or.inr (by decide)
    · split at hc
      · rw [List.mem_singleton.mp hc]
        exact Or.inl (by decide)
      · exact Or.inl (hdigits c (List.mem_of_mem_drop hc))

theorem isMagnitude_power {mantissa amount : List Char} {sign : Char}
    (hmantissa : ∀ c ∈ mantissa, c.isDigit = true ∨ c ∈ ['.', 'e', '+', '-'])
    (hfirst : ∃ c ∈ mantissa.head?, c.isDigit = true) (hsign : sign ∈ ['+', '-'])
    (hamount : ∀ c ∈ amount, c.isDigit = true) :
    IsMagnitude (mantissa ++ ['e', sign] ++ amount) := by
  refine ⟨?_, ?_, Or.inr (by simp)⟩
  · intro c hc
    simp only [List.mem_append, List.mem_cons, List.not_mem_nil, or_false] at hc
    rcases hc with (hc | rfl | rfl) | hc
    · exact hmantissa c hc
    · exact Or.inr (by decide)
    · exact Or.inr (List.mem_cons_of_mem _ (List.mem_cons_of_mem _ hsign))
    · exact Or.inl (hamount c hc)
  · rcases hfirst with ⟨c, hc, hdigit⟩
    refine ⟨c, ?_, hdigit⟩
    rw [List.append_assoc, List.head?_append, Option.mem_def.mp hc]
    rfl

theorem isMagnitude_scientific {cs : List Char} (hdigits : ∀ c ∈ cs, c.isDigit = true)
    (hne : cs ≠ []) (power : Int) : IsMagnitude (scientific cs power) := by
  have hamount : ∀ c ∈ (toString power.natAbs).toList, c.isDigit = true :=
    fun c => isDigit_of_mem_toString
  rcases List.exists_cons_of_ne_nil hne with ⟨d, ds, rfl⟩
  have hd := hdigits d List.mem_cons_self
  unfold scientific
  apply isMagnitude_power
  · intro c hc
    cases ds with
    | nil =>
        rw [List.mem_singleton.mp hc]
        exact Or.inl hd
    | cons d' ds =>
        rcases List.mem_cons.mp hc with rfl | hc
        · exact Or.inl hd
        · rcases List.mem_cons.mp hc with rfl | hc
          · exact Or.inr (by decide)
          · exact Or.inl (hdigits c (List.mem_cons_of_mem _ hc))
  · refine ⟨d, ?_, hd⟩
    cases ds <;> rfl
  · split
    · decide
    · decide
  · intro c hc
    split at hc
    · rcases List.mem_cons.mp hc with rfl | hc
      · decide
      · exact hamount c hc
    · exact hamount c hc

theorem isMagnitude_magnitudeText (m : Nat) (e : Int) : IsMagnitude (magnitudeText m e) := by
  unfold magnitudeText
  split
  · exact ⟨by simp, ⟨'0', rfl, by decide⟩, by decide⟩
  · generalize shortestDigits m e = shortest
    dsimp only
    split
    · exact isMagnitude_positional (fun c => isDigit_of_mem_toString) (toString_toList_ne_nil _) _
    · exact isMagnitude_scientific (fun c => isDigit_of_mem_toString) (toString_toList_ne_nil _) _

theorem toList_text_finite (negative : Bool) (m : Nat) (e : Int) :
    (finite negative m e).text.toList =
      (if negative then ['-'] else []) ++ magnitudeText m e := by
  rw [text, String.toList_ofList]

theorem trim_eq_self {p : Char → Bool} {cs : List Char} (h : ∀ c ∈ cs, p c = false) :
    trim p cs = cs := by
  have hkept : ∀ cs : List Char, (∀ c ∈ cs, p c = false) → cs.dropWhile p = cs := by
    intro cs h
    cases cs with
    | nil => rfl
    | cons c cs => rw [List.dropWhile_cons, h c List.mem_cons_self]; rfl
  rw [trim, hkept cs h, hkept cs.reverse fun c hc => h c (List.mem_reverse.mp hc),
    List.reverse_reverse]

theorem isSpace_of_isDigit {c : Char} (h : c.isDigit = true) : isSpace c = false := by
  have hcode := toNat_of_isDigit h
  unfold isSpace
  simp
  omega

theorem toLower_of_isDigit {c : Char} (h : c.isDigit = true) : c.toLower = c := by
  have hcode := toNat_of_isDigit h
  unfold Char.toLower
  rw [dif_neg]
  rintro ⟨hlow, _⟩
  have hletter : 65 ≤ c.toNat := UInt32.le_iff_toNat_le.mp hlow
  omega

theorem isSpace_of_mem_text {negative : Bool} {m : Nat} {e : Int} {c : Char}
    (h : c ∈ (finite negative m e).text.toList) : isSpace c = false := by
  rw [toList_text_finite] at h
  rcases List.mem_append.mp h with h | h
  · split at h
    · rw [List.mem_singleton.mp h]
      decide
    · cases h
  · rcases (isMagnitude_magnitudeText m e).chars c h with hdigit | hmark
    · exact isSpace_of_isDigit hdigit
    · have hnone : ∀ c ∈ ['.', 'e', '+', '-'], isSpace c = false := by simp [isSpace]
      exact hnone c hmark

theorem splitSign_of_digit {d : Char} {rest : List Char} (h : d.isDigit = true) :
    splitSign (d :: rest) = (false, d :: rest) := by
  unfold splitSign
  split
  · rename_i heq
    cases heq
    exact absurd h (by decide)
  · rename_i heq
    cases heq
    exact absurd h (by decide)
  · rfl

theorem map_toLower_ne_word {d : Char} (rest : List Char) (c : Char) (cs : List Char)
    (hd : d.isDigit = true) (hc : c.isDigit = false) :
    ((d :: rest).map Char.toLower == c :: cs) = false := by
  rw [beq_eq_false_iff_ne, List.map_cons, toLower_of_isDigit hd]
  intro heq
  cases heq
  rw [hd] at hc
  cases hc

/-- The text of a number reads back as the number. -/
theorem readFloat_text {x : Binary64} (h : x.IsCanonical) :
    readFloat x.text.toList = some x := by
  cases x with
  | nan => decide
  | infinite negative => cases negative <;> decide
  | finite negative m e =>
      have hread := readMagnitude_magnitudeText negative (m := m) (e := e) h
      rcases (isMagnitude_magnitudeText m e).first with ⟨d, hd, hdigit⟩
      rw [readFloat, trim_eq_self fun c => isSpace_of_mem_text, toList_text_finite]
      rcases List.head?_eq_some_iff.mp (Option.mem_def.mp hd) with ⟨rest, hrest⟩
      rw [hrest] at hread ⊢
      have hsplit : splitSign ((if negative = true then ['-'] else []) ++ d :: rest) =
          (negative, d :: rest) := by
        cases negative with
        | true => rfl
        | false => exact splitSign_of_digit hdigit
      have hinf := map_toLower_ne_word rest 'i' ['n', 'f'] hdigit (by decide)
      have hlong := map_toLower_ne_word rest 'i' ['n', 'f', 'i', 'n', 'i', 't', 'y'] hdigit
        (by decide)
      have hnan := map_toLower_ne_word rest 'n' ['a', 'n'] hdigit (by decide)
      rw [hsplit]
      simp only [show "inf".toList = ['i', 'n', 'f'] from rfl,
        show "infinity".toList = ['i', 'n', 'f', 'i', 'n', 'i', 't', 'y'] from rfl,
        show "nan".toList = ['n', 'a', 'n'] from rfl, hinf, hlong, hnan, Bool.or_self,
        Bool.false_eq_true, if_false, hread]

/-- Numbers with the same text are the same. -/
theorem text_inj {x y : Binary64} (hx : x.IsCanonical) (hy : y.IsCanonical)
    (h : x.text = y.text) : x = y := by
  have hread := readFloat_text hx
  rw [h, readFloat_text hy] at hread
  exact (Option.some.inj hread).symm

end Binary64
end Decimal
end TextMate
