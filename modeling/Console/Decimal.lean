import Console.Byte

/-!
# Decimal numerals

A number is written with as few digits as it takes and a minus sign if it is
negative. A numeral read from outside may have either sign and leading zeros,
and must denote a number of 32 bits. It is read digit by digit, and refused at
the first digit that leads out of range.
-/
namespace Console.Decimal

def digit (value : Nat) : UInt8 := UInt8.ofNat (48 + value)

def digits (number : Nat) : Bytes :=
  if number < 10 then [digit number] else digits (number / 10) ++ [digit (number % 10)]

def render : Int → Bytes
  | .ofNat number => digits number
  | .negSucc number => 45 :: digits (number + 1)

private theorem digit_ne_zero (value : Nat) (single : value < 10) : digit value ≠ 0 := by
  intro zero
  have code : (digit value).toNat = 48 + value := by
    rw [digit, UInt8.toNat_ofNat']
    omega
  rw [zero, UInt8.toNat_zero] at code
  omega

private theorem zero_not_mem_digits (number : Nat) : 0 ∉ digits number := by
  fun_induction digits number with
  | case1 number single =>
    intro member
    exact digit_ne_zero number single (List.mem_singleton.mp member).symm
  | case2 number several ih =>
    intro member
    rcases List.mem_append.mp member with front | last
    · exact ih front
    · exact digit_ne_zero (number % 10) (by omega) (List.mem_singleton.mp last).symm

theorem zero_not_mem_render (number : Int) : 0 ∉ render number := by
  cases number with
  | ofNat number => exact zero_not_mem_digits number
  | negSucc number =>
    intro member
    rcases List.mem_cons.mp member with sign | rest
    · exact absurd sign (by decide)
    · exact zero_not_mem_digits (number + 1) rest

def digitValue? (char : Char) : Option Nat :=
  if '0' ≤ char ∧ char ≤ '9' then some (char.toNat - 48) else none

def Fits (number : Int) : Prop :=
  Int32.minValue.toInt ≤ number ∧ number ≤ Int32.maxValue.toInt

instance (number : Int) : Decidable (Fits number) := inferInstanceAs (Decidable (_ ∧ _))

/-- Appends a digit to a number read so far; a negative number moves away from
zero. Refuses what is no digit and what no longer fits. -/
def append? (negative : Bool) (number : Int) (char : Char) : Option Int := do
  let value ← digitValue? char
  let next := if negative then number * 10 - value else number * 10 + value
  if Fits next then some next else none

/-- Reads one digit or more. -/
def readDigits? (negative : Bool) (chars : List Char) : Option Int32 :=
  if chars.isEmpty then none
  else (chars.foldlM (append? negative) 0).map Int32.ofInt

/-- Reads a numeral of 32 bits with at most one sign. -/
def read? (string : String) : Option Int32 :=
  match string.toList with
  | '-' :: chars => readDigits? true chars
  | '+' :: chars => readDigits? false chars
  | chars => readDigits? false chars

end Console.Decimal
