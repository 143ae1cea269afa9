import Console.Decimal
import Mathlib.Algebra.Group.Int.Defs
import Mathlib.Data.List.Basic
import Mathlib.Data.List.Induction

/-!
# Numerals read and printed

A numeral is told here by what it is: digits, after one sign or none. Reading
goes digit by digit and gives up as soon as a number does not fit, which is just
if the number denoted does not fit, since digits only lead away from zero.
Printing uses the one numeral of a number that is as short as can be. So what is
read and what is printed are inverse to each other, and every other string is
refused.
-/
namespace Console

theorem utf8_injective {first second : String} (same : utf8 first = utf8 second) :
    first = second := by
  have encoded (string : String) : (utf8 string).toByteArray = string.toByteArray := by
    rw [← String.ofList_toList (s := string), String.toByteArray_ofList, utf8, String.toList_ofList]
    rfl
  rw [← String.toByteArray_inj, ← encoded, ← encoded, same]

namespace Decimal

inductive Sign where
  | plus
  | minus
deriving DecidableEq

def Sign.char : Sign → Char
  | .plus => '+'
  | .minus => '-'

abbrev Digit := Fin 10

def Digit.char (digit : Digit) : Char := Nat.digitChar digit.val

/-- A number with digits written after it. -/
def continued (number : Nat) (digits : List Digit) : Nat :=
  digits.foldl (fun number digit => 10 * number + digit.val) number

/-- What digits denote. -/
def magnitude (digits : List Digit) : Nat := continued 0 digits

/-- Digits after one sign or none, leading zeros included. -/
structure Numeral where
  sign : Option Sign
  digits : List Digit
  some_digit : digits ≠ []

/-- A number at a distance from zero. -/
def signed (negative : Bool) (distance : Nat) : Int := if negative then -distance else distance

namespace Numeral

def spelling (numeral : Numeral) : String :=
  String.ofList ((numeral.sign.map Sign.char).toList ++ numeral.digits.map Digit.char)

def value (numeral : Numeral) : Int :=
  signed (numeral.sign = some .minus) (magnitude numeral.digits)

/-- The numeral has no sign but that of a negative number, and no zero in front. -/
structure IsCanonical (numeral : Numeral) : Prop where
  no_plus : numeral.sign ≠ some .plus
  minus_iff : numeral.sign = some .minus ↔ numeral.value < 0
  no_leading_zero : numeral.digits.head? = some 0 → numeral.digits = [0]

end Numeral

/-! ## Reading -/

theorem fits_iff (number : Int) : Fits number ↔ -2 ^ 31 ≤ number ∧ number ≤ 2 ^ 31 - 1 :=
  Iff.rfl

theorem le_continued (number : Nat) (digits : List Digit) :
    number ≤ continued number digits := by
  induction digits generalizing number with
  | nil => exact Nat.le_refl number
  | cons digit rest ih =>
    have further : 10 * number + digit.val ≤ continued number (digit :: rest) := ih _
    omega

/-- What fits still fits closer to zero. -/
private theorem fits_of_le (negative : Bool) (near far : Nat) (closer : near ≤ far)
    (fits : Fits (signed negative far)) : Fits (signed negative near) := by
  rw [fits_iff] at *
  cases negative <;> simp only [signed, Bool.false_eq_true, if_false, if_true] at * <;> omega

private theorem digitValue?_char (digit : Digit) :
    digitValue? digit.char = some digit.val := by
  revert digit
  decide

private theorem char_ne_sign (digit : Digit) : digit.char ≠ '-' ∧ digit.char ≠ '+' := by
  revert digit
  decide

private theorem exists_digit (char : Char) (value : Nat) (read : digitValue? char = some value) :
    ∃ digit : Digit, digit.char = char := by
  unfold digitValue? at read
  split at read
  next within =>
    have least : 48 ≤ char.toNat := within.1
    have most : char.toNat ≤ 57 := within.2
    refine ⟨⟨char.toNat - 48, by omega⟩, ?_⟩
    apply Char.toNat_inj.mp
    rw [Digit.char, Nat.toNat_digitChar_of_lt_ten (by omega)]
    exact Nat.add_sub_cancel' least
  next => simp at read

theorem append?_digit (negative : Bool) (number : Nat) (digit : Digit) :
    append? negative (signed negative number) digit.char =
      if Fits (signed negative (10 * number + digit.val)) then
        some (signed negative (10 * number + digit.val)) else none := by
  have moved : (if negative then signed negative number * 10 - (digit.val : Int)
      else signed negative number * 10 + (digit.val : Int)) =
        signed negative (10 * number + digit.val) := by
    cases negative <;> simp only [signed, Bool.false_eq_true, if_false, if_true] <;> omega
  simp only [append?, digitValue?_char, Option.bind_eq_bind, Option.bind_some, moved]

/-- Digits are read to their end if the number they denote fits. -/
theorem foldlM_digits (negative : Bool) (number : Nat) (digits : List Digit)
    (fits : Fits (signed negative number)) :
    (digits.map Digit.char).foldlM (append? negative) (signed negative number) =
      if Fits (signed negative (continued number digits)) then
        some (signed negative (continued number digits)) else none := by
  induction digits generalizing number with
  | nil => exact (if_pos fits).symm
  | cons digit rest ih =>
    rw [List.map_cons, List.foldlM_cons, append?_digit]
    split
    next still => exact ih (10 * number + digit.val) still
    next exceeds =>
      -- given up here, and the whole number does not fit either
      have never : ¬ Fits (signed negative (continued number (digit :: rest))) := fun whole =>
        exceeds (fits_of_le negative _ _ (le_continued (10 * number + digit.val) rest) whole)
      rw [if_neg never]
      rfl

theorem digits_of_foldlM (negative : Bool) (chars : List Char) (number result : Int)
    (read : chars.foldlM (append? negative) number = some result) :
    ∃ digits : List Digit, digits.map Digit.char = chars := by
  induction chars generalizing number with
  | nil => exact ⟨[], rfl⟩
  | cons char rest ih =>
    rw [List.foldlM_cons] at read
    obtain ⟨next, appended, later⟩ := Option.bind_eq_some_iff.mp read
    obtain ⟨value, isDigit, -⟩ := Option.bind_eq_some_iff.mp appended
    obtain ⟨digit, rfl⟩ := exists_digit char value isDigit
    obtain ⟨digits, rfl⟩ := ih next later
    exact ⟨digit :: digits, rfl⟩

theorem readDigits?_eq_some_iff (negative : Bool) (chars : List Char) (number : Int32) :
    readDigits? negative chars = some number ↔
      ∃ digits : List Digit, digits ≠ [] ∧ digits.map Digit.char = chars ∧
        signed negative (magnitude digits) = number.toInt := by
  have read (digits : List Digit) :
      (digits.map Digit.char).foldlM (append? negative) 0 =
        if Fits (signed negative (magnitude digits)) then
          some (signed negative (magnitude digits)) else none := by
    have zero : signed negative 0 = 0 := by cases negative <;> rfl
    have fits : Fits (signed negative 0) := by
      rw [zero]
      decide
    have all := foldlM_digits negative 0 digits fits
    rw [zero] at all
    exact all
  unfold readDigits?
  constructor
  · intro given
    split at given
    next => simp at given
    next some_char =>
      obtain ⟨result, folded, rfl⟩ := Option.map_eq_some_iff.mp given
      obtain ⟨digits, rfl⟩ := digits_of_foldlM negative chars 0 result folded
      rw [read] at folded
      split at folded
      next fits =>
        rw [fits_iff] at fits
        refine ⟨digits, by simpa using some_char, rfl, ?_⟩
        rw [← Option.some.inj folded]
        exact (Int32.toInt_ofInt_of_le fits.1 (by omega)).symm
      next => simp at folded
  · rintro ⟨digits, some_digit, rfl, same⟩
    have fits : Fits (signed negative (magnitude digits)) := by
      rw [same, fits_iff]
      have least := number.le_toInt
      have most := number.toInt_lt
      omega
    rw [if_neg (by simpa using some_digit), read, if_pos fits, Option.map_some]
    refine congrArg some ?_
    rw [same]
    exact Int32.ofInt_toInt number

/-- Just the numerals whose number fits are read, and as that number. -/
theorem read?_eq_some_iff (string : String) (number : Int32) :
    read? string = some number ↔
      ∃ numeral : Numeral, numeral.spelling = string ∧ numeral.value = number.toInt := by
  constructor
  · intro given
    have spelled (chars : List Char) (letters : string.toList = chars) :
        String.ofList chars = string := by
      rw [← letters, String.ofList_toList]
    unfold read? at given
    split at given
    next chars letters =>
      obtain ⟨digits, some_digit, rfl, same⟩ := (readDigits?_eq_some_iff _ _ _).mp given
      exact ⟨⟨some .minus, digits, some_digit⟩, spelled _ letters, same⟩
    next chars letters =>
      obtain ⟨digits, some_digit, rfl, same⟩ := (readDigits?_eq_some_iff _ _ _).mp given
      exact ⟨⟨some .plus, digits, some_digit⟩, spelled _ letters, same⟩
    next =>
      obtain ⟨digits, some_digit, letters, same⟩ := (readDigits?_eq_some_iff _ _ _).mp given
      exact ⟨⟨none, digits, some_digit⟩, spelled _ letters.symm, same⟩
  · rintro ⟨⟨sign, digits, some_digit⟩, rfl, same⟩
    have read (negative : Bool) (value : signed negative (magnitude digits) = number.toInt) :=
      (readDigits?_eq_some_iff negative _ number).mpr ⟨digits, some_digit, rfl, value⟩
    simp only [read?, Numeral.spelling, String.toList_ofList]
    cases sign with
    | none =>
      -- a digit is no sign, so nothing is taken off
      obtain ⟨first, rest, rfl⟩ := List.exists_cons_of_ne_nil some_digit
      have unsigned := char_ne_sign first
      split
      next chars minus => exact absurd (List.cons.inj minus).1 unsigned.1
      next chars plus => exact absurd (List.cons.inj plus).1 unsigned.2
      next => exact read false same
    | some sign =>
      cases sign with
      | plus => exact read false same
      | minus => exact read true same

/-! ## Printing -/

private theorem magnitude_concat (front : List Digit) (last : Digit) :
    magnitude (front ++ [last]) = 10 * magnitude front + last.val := by
  simp [magnitude, continued, List.foldl_append]

private theorem magnitude_pos (digits : List Digit) (some_digit : digits ≠ [])
    (nonzero : digits.head? ≠ some 0) : 0 < magnitude digits := by
  obtain ⟨first, rest, rfl⟩ := List.exists_cons_of_ne_nil some_digit
  have further : 10 * 0 + first.val ≤ magnitude (first :: rest) := le_continued _ rest
  have positive : first.val ≠ 0 := by
    intro zero
    exact nonzero (congrArg some (Fin.ext zero))
  omega

/-- Digits without a zero in front are the digits of what they denote. -/
theorem digits_magnitude (digits : List Digit) (some_digit : digits ≠ [])
    (no_leading_zero : digits.head? = some 0 → digits = [0]) :
    Decimal.digits (magnitude digits) = digits.map (digit ·.val) := by
  -- the last digit is written last, so the induction is from the end
  induction digits using List.reverseRecOn with
  | nil => exact absurd rfl some_digit
  | append_singleton front last ih =>
    rw [magnitude_concat]
    by_cases only : front = []
    · subst only
      rw [Decimal.digits, if_pos (by simp [magnitude, continued])]
      simp [magnitude, continued]
    · have head : (front ++ [last]).head? = front.head? := List.head?_append_of_ne_nil _ only
      have nonzero : front.head? ≠ some 0 := by
        intro zero
        have lone := congrArg List.length (no_leading_zero (head.trans zero))
        simp [only] at lone
      have positive := magnitude_pos front only nonzero
      have shorter := ih only (absurd · nonzero)
      rw [Decimal.digits, if_neg (by omega)]
      have quotient : (10 * magnitude front + last.val) / 10 = magnitude front := by omega
      have rest : (10 * magnitude front + last.val) % 10 = last.val := by omega
      rw [quotient, rest, shorter]
      simp

theorem exists_digits (number : Nat) :
    ∃ digits : List Digit, digits ≠ [] ∧ (digits.head? = some 0 → digits = [0]) ∧
      magnitude digits = number := by
  induction number using Decimal.digits.induct with
  | case1 number single =>
    refine ⟨[⟨number, single⟩], List.cons_ne_nil _ _, ?_, by simp [magnitude, continued]⟩
    intro zero
    exact congrArg (fun digit => [digit]) (Option.some.inj zero)
  | case2 number several ih =>
    obtain ⟨front, some_digit, no_leading_zero, denoted⟩ := ih
    refine ⟨front ++ [⟨number % 10, by omega⟩], by simp, ?_, ?_⟩
    · intro zero
      rw [List.head?_append_of_ne_nil _ some_digit] at zero
      rw [no_leading_zero zero] at denoted
      have none : number / 10 = 0 := denoted.symm
      omega
    · rw [magnitude_concat, denoted]
      exact Nat.div_add_mod number 10

private theorem utf8_spelling (numeral : Numeral) :
    utf8 numeral.spelling =
      (numeral.sign.map Sign.char).toList.flatMap String.utf8EncodeChar ++
        numeral.digits.map (digit ·.val) := by
  have coded : ∀ digit : Digit, String.utf8EncodeChar digit.char = [Decimal.digit digit.val] := by
    decide
  simp only [utf8, Numeral.spelling, String.toList_ofList, List.flatMap_append, List.flatMap_map,
    coded]
  rw [← List.map_eq_flatMap]

namespace Numeral

/-- What is printed of a number is its canonical numeral. -/
theorem IsCanonical.render_value {numeral : Numeral} (canonical : numeral.IsCanonical) :
    render numeral.value = utf8 numeral.spelling := by
  have written :=
    digits_magnitude numeral.digits numeral.some_digit canonical.no_leading_zero
  rw [utf8_spelling, ← written]
  obtain ⟨sign, digits, some_digit⟩ := numeral
  cases sign with
  | none => rfl
  | some sign =>
    cases sign with
    | plus => exact absurd rfl canonical.no_plus
    | minus =>
      have below : -(magnitude digits : Int) < 0 := canonical.minus_iff.mp rfl
      obtain ⟨less, positive⟩ : ∃ less, magnitude digits = less + 1 :=
        Nat.exists_eq_add_one.mpr (by omega)
      have value : Numeral.value ⟨some .minus, digits, some_digit⟩ = Int.negSucc less := by
        simp only [Numeral.value, signed, positive]
        rfl
      rw [value, positive]
      rfl

theorem exists_isCanonical (number : Int) :
    ∃ numeral : Numeral, numeral.IsCanonical ∧ numeral.value = number := by
  obtain ⟨digits, some_digit, no_leading_zero, denoted⟩ := exists_digits number.natAbs
  by_cases below : number < 0
  · have value : Numeral.value ⟨some .minus, digits, some_digit⟩ = number := by
      simp only [Numeral.value, signed, denoted, decide_true, if_true]
      omega
    refine ⟨⟨some .minus, digits, some_digit⟩, ⟨nofun, ?_, no_leading_zero⟩, value⟩
    rw [value]
    exact iff_of_true rfl below
  · have value : Numeral.value ⟨none, digits, some_digit⟩ = number := by
      simp only [Numeral.value, signed, denoted, reduceCtorEq, decide_false, Bool.false_eq_true,
        if_false]
      omega
    refine ⟨⟨none, digits, some_digit⟩, ⟨nofun, ?_, no_leading_zero⟩, value⟩
    rw [value]
    exact iff_of_false nofun below

end Numeral
end Decimal

end Console
