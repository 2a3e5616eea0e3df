-- SUMMARY: Decimal numbers and words as the C library prints and scans them, and the round trip of a number.
import Mathlib.Data.List.TakeDrop
import Mathlib.Tactic.Common
import MtHvac.Base.Word

/-!
# Formatted text

`printf("%d")`, the conversions `%d` and `%s` of `scanf`, `strtol` and `atoi` on texts
of characters, in the "C" locale. A number that does not fit is cut down as glibc
does: to the range of `long`, and then to an `int`.
-/

namespace Base

abbrev Text := List Char

namespace Scan

/-! ## Characters -/

/-- `isspace`: blank, and the control characters from tab to carriage return. -/
def isSpace (c : Char) : Bool := c = ' ' || decide (9 ≤ c.toNat ∧ c.toNat ≤ 13)

/-- A blank in a `scanf` format: any number of white-space characters. -/
def skipSpace (t : Text) : Text := t.dropWhile isSpace

theorem isSpace_of_isDigit {c : Char} (h : c.isDigit) : isSpace c = false := by
  have hc : 48 ≤ c.toNat := (Char.isDigit_iff_toNat.mp h).1
  have hblank : c ≠ ' ' := by
    rintro rfl
    exact absurd hc (by decide)
  simp only [isSpace, hblank, decide_false, Bool.false_or, decide_eq_false_iff_not]
  omega

theorem skipSpace_of_head {c : Char} {t : Text} (h : isSpace c = false) :
    skipSpace (c :: t) = c :: t := by
  simp [skipSpace, h]

/-! ## Numbers -/

/-- The sign of a number: whether it is a minus, and the text behind it. -/
def splitSign : Text → Bool × Text
  | '-' :: t => (true, t)
  | '+' :: t => (false, t)
  | t        => (false, t)

/-- An optional sign and at least one digit: the number, and the text behind it. -/
def decimal (t : Text) : Option (Int × Text) :=
  let (negative, t') := splitSign t
  let digits := t'.takeWhile Char.isDigit
  if digits = [] then none
  else
    let n : Int := Nat.ofDigitChars 10 digits 0
    some (if negative then -n else n, t'.dropWhile Char.isDigit)

/-- `LONG_MIN` and `LONG_MAX` stand for what is out of range. -/
def clampLong (n : Int) : Int := max (-2 ^ 63) (min n (2 ^ 63 - 1))

/-- `strtol` with the base 10. -/
def strtol (t : Text) : Int := ((decimal (skipSpace t)).map fun x => clampLong x.1).getD 0

def atoi (t : Text) : Int := Word.toInt32 (strtol t)

/-- The conversion `%d` of `scanf`; `none` if there is no number. -/
def scanInt (t : Text) : Option (Int × Text) :=
  (decimal (skipSpace t)).map fun x => (Word.toInt32 (clampLong x.1), x.2)

/-- The conversion `%s` of `scanf`; `none` at the end of the text. -/
def scanWord (t : Text) : Option (Text × Text) :=
  let t' := skipSpace t
  if t' = [] then none
  else some (t'.takeWhile fun c => !isSpace c, t'.dropWhile fun c => !isSpace c)

/-- `printf("%d")`. -/
def printInt (n : Int) : Text :=
  if n < 0 then '-' :: Nat.toDigits 10 n.natAbs else Nat.toDigits 10 n.natAbs

/-! ## What a conversion consumes -/

theorem skipSpace_length (t : Text) : (skipSpace t).length ≤ t.length :=
  (List.dropWhile_sublist _).length_le

theorem splitSign_length (t : Text) : (splitSign t).2.length ≤ t.length := by
  unfold splitSign
  split <;> simp

/-- A number has a digit, at least. -/
theorem decimal_length {t : Text} {x : Int × Text} (h : decimal t = some x) :
    x.2.length < t.length := by
  simp only [decimal] at h
  split at h
  · cases h
  · next hdigits =>
      obtain rfl := Option.some.inj h
      have hsplit := congrArg List.length
        (List.takeWhile_append_dropWhile (p := Char.isDigit) (l := (splitSign t).2))
      have hpos := List.length_pos_iff.mpr hdigits
      have hsign := splitSign_length t
      simp only [List.length_append] at hsplit
      dsimp only at hpos ⊢
      omega

theorem scanInt_length {t : Text} {x : Int × Text} (h : scanInt t = some x) :
    x.2.length < t.length := by
  obtain ⟨y, hy, rfl⟩ := Option.map_eq_some_iff.mp h
  exact (decimal_length hy).trans_le (skipSpace_length t)

theorem scanWord_length {t : Text} {x : Text × Text} (h : scanWord t = some x) :
    x.2.length ≤ t.length := by
  simp only [scanWord] at h
  split at h
  · cases h
  · obtain rfl := Option.some.inj h
    exact (List.dropWhile_sublist _).length_le.trans (skipSpace_length t)

/-! ## Round trips -/

/-- Nothing that could belong to a number. -/
def NoDigit (t : Text) : Prop := ∀ c ∈ t.head?, c.isDigit = false

theorem takeWhile_toDigits {n : Nat} {rest : Text} (hrest : NoDigit rest) :
    (Nat.toDigits 10 n ++ rest).takeWhile Char.isDigit = Nat.toDigits 10 n := by
  have hdigits : ∀ c ∈ Nat.toDigits 10 n, c.isDigit := fun c hc =>
    Nat.isDigit_of_mem_toDigits (by decide) (by decide) hc
  rw [List.takeWhile_append_of_pos hdigits]
  cases rest with
  | nil => simp
  | cons c rest => simp [hrest c rfl]

theorem dropWhile_toDigits {n : Nat} {rest : Text} (hrest : NoDigit rest) :
    (Nat.toDigits 10 n ++ rest).dropWhile Char.isDigit = rest := by
  have hdigits : ∀ c ∈ Nat.toDigits 10 n, c.isDigit := fun c hc =>
    Nat.isDigit_of_mem_toDigits (by decide) (by decide) hc
  rw [List.dropWhile_append_of_pos hdigits]
  cases rest with
  | nil => rfl
  | cons c rest => simp [hrest c rfl]

/-- A digit is no sign. -/
theorem splitSign_toDigits {n : Nat} {rest : Text} :
    splitSign (Nat.toDigits 10 n ++ rest) = (false, Nat.toDigits 10 n ++ rest) := by
  cases h : Nat.toDigits 10 n with
  | nil => exact absurd h Nat.toDigits_ne_nil
  | cons c cs =>
      have hc : c.isDigit :=
        Nat.isDigit_of_mem_toDigits (b := 10) (n := n) (by decide) (by decide) (by simp [h])
      rw [List.cons_append]
      unfold splitSign
      split
      · next heq =>
          cases heq
          exact absurd hc (by decide)
      · next heq =>
          cases heq
          exact absurd hc (by decide)
      · rfl

/-- A printed number is read back, up to what follows it. -/
theorem decimal_printInt {n : Int} {rest : Text} (hrest : NoDigit rest) :
    decimal (printInt n ++ rest) = some (n, rest) := by
  by_cases hneg : n < 0
  · rw [printInt, if_pos hneg, List.cons_append, decimal]
    simp only [splitSign, takeWhile_toDigits hrest, dropWhile_toDigits hrest,
      Nat.toDigits_ne_nil, Nat.ofDigitChars_ten_toDigits, if_true, if_false]
    rw [Int.natCast_natAbs, abs_of_neg hneg, neg_neg]
  · rw [printInt, if_neg hneg, decimal]
    simp only [splitSign_toDigits, takeWhile_toDigits hrest, dropWhile_toDigits hrest,
      Nat.toDigits_ne_nil, Nat.ofDigitChars_ten_toDigits, if_false, Bool.false_eq_true]
    rw [Int.natCast_natAbs, abs_of_nonneg (by omega)]

/-- A printed number begins with a character that is not skipped. -/
theorem skipSpace_printInt {n : Int} {rest : Text} :
    skipSpace (printInt n ++ rest) = printInt n ++ rest := by
  by_cases hneg : n < 0
  · rw [printInt, if_pos hneg, List.cons_append]
    exact skipSpace_of_head (by decide)
  · rw [printInt, if_neg hneg]
    cases h : Nat.toDigits 10 n.natAbs with
    | nil => exact absurd h Nat.toDigits_ne_nil
    | cons c cs =>
        have hc : c.isDigit :=
          Nat.isDigit_of_mem_toDigits (b := 10) (n := n.natAbs) (by decide) (by decide) (by simp [h])
        exact skipSpace_of_head (isSpace_of_isDigit hc)

theorem clampLong_of_range {n : Int} (hlo : -2 ^ 31 ≤ n) (hhi : n < 2 ^ 31) : clampLong n = n := by
  unfold clampLong
  omega

/-- `%d` reads back what `%d` has printed. -/
theorem scanInt_printInt {n : Int} {rest : Text} (hlo : -2 ^ 31 ≤ n) (hhi : n < 2 ^ 31)
    (hrest : NoDigit rest) : scanInt (printInt n ++ rest) = some (n, rest) := by
  rw [scanInt, skipSpace_printInt, decimal_printInt hrest, Option.map_some,
    clampLong_of_range hlo hhi, Word.toInt32_of_range hlo hhi]

theorem atoi_printInt {n : Int} (hlo : -2 ^ 31 ≤ n) (hhi : n < 2 ^ 31) : atoi (printInt n) = n := by
  have hdecimal : decimal (skipSpace (printInt n)) = some (n, []) := by
    have hskip := @skipSpace_printInt n []
    have hread := @decimal_printInt n [] (by rintro c ⟨⟩)
    rw [List.append_nil] at hskip hread
    rw [hskip, hread]
  rw [atoi, strtol, hdecimal, Option.map_some, Option.getD_some, clampLong_of_range hlo hhi,
    Word.toInt32_of_range hlo hhi]

theorem atoi_range (t : Text) : -2 ^ 31 ≤ atoi t ∧ atoi t < 2 ^ 31 := Word.toInt32_range _

/-- A word is read up to the white space behind it. -/
theorem scanWord_append {word rest : Text} (hne : word ≠ [])
    (hword : ∀ c ∈ word, isSpace c = false) (hrest : ∀ c ∈ rest.head?, isSpace c = true) :
    scanWord (word ++ rest) = some (word, rest) := by
  obtain ⟨c, cs, rfl⟩ := List.exists_cons_of_ne_nil hne
  have hskip : skipSpace (c :: cs ++ rest) = c :: cs ++ rest :=
    skipSpace_of_head (hword c (by simp))
  have hpos : ∀ c' ∈ c :: cs, (!isSpace c') = true := fun c' hc' => by simp [hword c' hc']
  have hstop : rest.takeWhile (fun c => !isSpace c) = [] ∧
      rest.dropWhile (fun c => !isSpace c) = rest := by
    cases rest with
    | nil => exact ⟨rfl, rfl⟩
    | cons c' rest => simp [hrest c' rfl]
  rw [scanWord, hskip, if_neg (by simp), List.takeWhile_append_of_pos hpos,
    List.dropWhile_append_of_pos hpos, hstop.1, hstop.2, List.append_nil]

end Scan
end Base
