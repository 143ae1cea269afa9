import Console.Utf8

/-!
# The codes of characters

The decoder goes byte by byte, and the code of a character is given whole. Here
the two are tied together: from its first byte on, the decoder admits the rest of
a code and makes the character of it, and whatever it admits to the end is the
code of what it makes. So the bytes of a character that has begun are just the
proper beginnings of codes, and no byte that is not admitted goes on with one.
-/
namespace Console.Utf8

/-! ## What the decoder admits -/

/-- What has begun, after one byte more. -/
def Begun.next (begun : Begun) (byte : UInt8) : Begun :=
  { bits := begun.bits * 64 + byte.toNat % 64, owed := begun.owed - 1 }

@[simp]
theorem Begun.bits_next (begun : Begun) (byte : UInt8) :
    (begun.next byte).bits = begun.bits * 64 + byte.toNat % 64 := rfl

@[simp]
theorem Begun.owed_next (begun : Begun) (byte : UInt8) :
    (begun.next byte).owed = begun.owed - 1 := rfl

/-- The bytes that finish what has begun, and the character they make. -/
inductive Begun.Finishes : Begun → Bytes → Char → Prop
  | last {begun : Begun} {byte : UInt8} (admitted : begun.admits byte = true)
      (one : begun.owed = 1) : Finishes begun [byte] (Char.ofNat (begun.next byte).bits)
  | more {begun : Begun} {byte : UInt8} {rest : Bytes} {char : Char}
      (admitted : begun.admits byte = true) (several : begun.owed ≠ 1)
      (later : Finishes (begun.next byte) rest char) : Finishes begun (byte :: rest) char

theorem Begun.admits_iff (begun : Begun) (byte : UInt8) :
    begun.admits byte = true ↔
      begun.low.toNat ≤ byte.toNat ∧ byte.toNat ≤ begun.high.toNat := by
  simp [admits, UInt8.le_iff_toNat_le]

theorem Begun.finishes_last_iff {begun : Begun} (rest : Bytes) (char : Char)
    (one : begun.owed = 1) :
    begun.Finishes rest char ↔ ∃ byte, rest = [byte] ∧ begun.admits byte = true ∧
      char = Char.ofNat (begun.next byte).bits := by
  constructor
  · intro finishes
    cases finishes with
    | last admitted _ => exact ⟨_, rfl, admitted, rfl⟩
    | more _ several _ => exact absurd one several
  · rintro ⟨byte, rfl, admitted, rfl⟩
    exact .last admitted one

theorem Begun.finishes_more_iff {begun : Begun} (rest : Bytes) (char : Char)
    (several : begun.owed ≠ 1) :
    begun.Finishes rest char ↔ ∃ byte later, rest = byte :: later ∧ begun.admits byte = true ∧
      (begun.next byte).Finishes later char := by
  constructor
  · intro finishes
    cases finishes with
    | last _ one => exact absurd one several
    | more admitted _ later => exact ⟨_, _, rfl, admitted, later⟩
  · rintro ⟨byte, later, rfl, admitted, finishes⟩
    exact .more admitted several finishes

/-- After its second byte a character takes any byte that may stand inside one. -/
theorem Begun.admits_next_iff (begun : Begun) (byte other : UInt8) :
    (begun.next byte).admits other = true ↔ 0x80 ≤ other.toNat ∧ other.toNat ≤ 0xBF :=
  admits_iff _ _

/-! ## The first byte -/

/-- How a byte opens a character, by the length of the code. -/
inductive Opens (lead : UInt8) : Opening → Prop
  | one (ascii : lead.toNat < 0x80) : Opens lead (.whole (Char.ofNat lead.toNat))
  | two {begun : Begun} (least : 0xC2 ≤ lead.toNat) (most : lead.toNat < 0xE0)
      (bits : begun.bits = lead.toNat - 0xC0) (owed : begun.owed = 1)
      (admits : ∀ byte, begun.admits byte = true ↔ 0x80 ≤ byte.toNat ∧ byte.toNat ≤ 0xBF) :
      Opens lead (.begun begun)
  | three {begun : Begun} (least : 0xE0 ≤ lead.toNat) (most : lead.toNat < 0xF0)
      (bits : begun.bits = lead.toNat - 0xE0) (owed : begun.owed = 2)
      (admits : ∀ byte, begun.admits byte = true ↔ (0x80 ≤ byte.toNat ∧ byte.toNat ≤ 0xBF) ∧
        (lead.toNat = 0xE0 → 0xA0 ≤ byte.toNat) ∧ (lead.toNat = 0xED → byte.toNat ≤ 0x9F)) :
      Opens lead (.begun begun)
  | four {begun : Begun} (least : 0xF0 ≤ lead.toNat) (most : lead.toNat < 0xF5)
      (bits : begun.bits = lead.toNat - 0xF0) (owed : begun.owed = 3)
      (admits : ∀ byte, begun.admits byte = true ↔ (0x80 ≤ byte.toNat ∧ byte.toNat ≤ 0xBF) ∧
        (lead.toNat = 0xF0 → 0x90 ≤ byte.toNat) ∧ (lead.toNat = 0xF4 → byte.toNat ≤ 0x8F)) :
      Opens lead (.begun begun)
  | stray (outside : 0x80 ≤ lead.toNat ∧ lead.toNat < 0xC2 ∨ 0xF5 ≤ lead.toNat) :
      Opens lead .invalid

theorem opens_ofByte (lead : UInt8) : Opens lead (Opening.ofByte lead) := by
  have same (byte : UInt8) : lead = byte ↔ lead.toNat = byte.toNat := UInt8.toNat_inj.symm
  fun_cases Opening.ofByte lead <;> simp only [UInt8.lt_iff_toNat_lt, same, UInt8.reduceToNat] at *
  case case1 ascii => exact .one ascii
  case case2 => exact .stray (by omega)
  case case3 => exact .two (by omega) (by omega) rfl rfl (Begun.admits_iff _)
  case case4 first | case5 first | case6 first =>
    refine .three (by omega) (by omega) (by simp only [first, Nat.reduceSub]) rfl fun byte => ?_
    simp only [Begun.admits_iff, UInt8.reduceToNat]
    omega
  case case7 first | case8 first | case9 first =>
    refine .four (by omega) (by omega) (by simp only [first, Nat.reduceSub]) rfl fun byte => ?_
    simp only [Begun.admits_iff, UInt8.reduceToNat]
    omega
  case case10 => exact .stray (by omega)

/-! ## The bytes inside a code -/

/-- The byte inside a code that holds the last six bits of a number. -/
def continuation (number : Nat) : UInt8 := UInt8.ofNat (number % 64 + 0x80)

theorem toNat_continuation (number : Nat) :
    (continuation number).toNat = number % 64 + 0x80 := by
  rw [continuation, UInt8.toNat_ofNat']
  omega

namespace Begun

theorem admits_next_continuation (begun : Begun) (byte : UInt8) (number : Nat) :
    (begun.next byte).admits (continuation number) = true := by
  rw [admits_next_iff, toNat_continuation]
  omega

theorem bits_next_continuation (begun : Begun) (number : Nat) (bits : begun.bits = number / 64) :
    (begun.next (continuation number)).bits = number := by
  rw [bits_next, bits, toNat_continuation]
  omega

theorem bits_next_div (begun : Begun) (byte : UInt8) :
    (begun.next byte).bits / 64 = begun.bits := by
  rw [bits_next]
  omega

theorem continuation_bits_next (begun : Begun) (byte : UInt8)
    (inside : 0x80 ≤ byte.toNat ∧ byte.toNat ≤ 0xBF) :
    continuation (begun.next byte).bits = byte := by
  rw [← UInt8.toNat_inj, toNat_continuation, bits_next]
  omega

/-! The bytes of a number finish what has begun with its first bits. -/

theorem finishes_one (begun : Begun) (number : Nat) (owed : begun.owed = 1)
    (bits : begun.bits = number / 64) (admitted : begun.admits (continuation number) = true) :
    begun.Finishes [continuation number] (Char.ofNat number) := by
  have finishes := Finishes.last admitted owed
  rwa [bits_next_continuation begun number bits] at finishes

theorem finishes_two (begun : Begun) (number : Nat) (owed : begun.owed = 2)
    (bits : begun.bits = number / 4096)
    (admitted : begun.admits (continuation (number / 64)) = true) :
    begun.Finishes [continuation (number / 64), continuation number] (Char.ofNat number) := by
  refine .more admitted (by omega) (finishes_one _ number (by simp [owed]) ?_ ?_)
  · exact bits_next_continuation begun (number / 64) (by omega)
  · exact admits_next_continuation begun _ number

theorem finishes_three (begun : Begun) (number : Nat) (owed : begun.owed = 3)
    (bits : begun.bits = number / 262144)
    (admitted : begun.admits (continuation (number / 4096)) = true) :
    begun.Finishes [continuation (number / 4096), continuation (number / 64), continuation number]
      (Char.ofNat number) := by
  refine .more admitted (by omega) (finishes_two _ number (by simp [owed]) ?_ ?_)
  · exact bits_next_continuation begun (number / 4096) (by omega)
  · exact admits_next_continuation begun _ (number / 64)

end Begun

/-! ## Codes -/

section Code

variable (number : Nat) (valid : number.isValidChar)

include valid

private theorem toNat_ofNat_of_isValidChar : (Char.ofNat number).val.toNat = number := by
  rw [Char.ofNat, dif_pos valid]
  rfl

theorem utf8EncodeChar_ofNat_one (most : number < 0x80) :
    String.utf8EncodeChar (Char.ofNat number) = [UInt8.ofNat number] := by
  simp only [String.utf8EncodeChar, toNat_ofNat_of_isValidChar number valid]
  rw [if_pos (by omega)]

theorem utf8EncodeChar_ofNat_two (least : 0x80 ≤ number) (most : number < 0x800) :
    String.utf8EncodeChar (Char.ofNat number) =
      [UInt8.ofNat (number / 64 + 0xC0), continuation number] := by
  simp only [String.utf8EncodeChar, toNat_ofNat_of_isValidChar number valid]
  rw [if_neg (by omega), if_pos (by omega), Nat.mod_eq_of_lt (by omega)]
  rfl

theorem utf8EncodeChar_ofNat_three (least : 0x800 ≤ number) (most : number < 0x10000) :
    String.utf8EncodeChar (Char.ofNat number) =
      [UInt8.ofNat (number / 4096 + 0xE0), continuation (number / 64), continuation number] := by
  simp only [String.utf8EncodeChar, toNat_ofNat_of_isValidChar number valid]
  rw [if_neg (by omega), if_neg (by omega), if_pos (by omega), Nat.mod_eq_of_lt (by omega)]
  rfl

theorem utf8EncodeChar_ofNat_four (least : 0x10000 ≤ number) :
    String.utf8EncodeChar (Char.ofNat number) =
      [UInt8.ofNat (number / 262144 + 0xF0), continuation (number / 4096),
        continuation (number / 64), continuation number] := by
  have most : number < 0x110000 := by
    unfold Nat.isValidChar at valid
    omega
  simp only [String.utf8EncodeChar, toNat_ofNat_of_isValidChar number valid]
  rw [if_neg (by omega), if_neg (by omega), if_neg (by omega), Nat.mod_eq_of_lt (by omega)]
  rfl

end Code

theorem utf8EncodeChar_of_whole {lead : UInt8} {char : Char}
    (opened : Opening.ofByte lead = .whole char) : String.utf8EncodeChar char = [lead] := by
  have opens := opens_ofByte lead
  rw [opened] at opens
  cases opens with
  | one ascii => rw [utf8EncodeChar_ofNat_one _ (.inl (by omega)) ascii, UInt8.ofNat_toNat]

/-- What the decoder admits to the end is the code of the character it makes. -/
theorem utf8EncodeChar_of_finishes {lead : UInt8} {begun : Begun} {rest : Bytes} {char : Char}
    (opened : Opening.ofByte lead = .begun begun) (finishes : begun.Finishes rest char) :
    String.utf8EncodeChar char = lead :: rest := by
  have opens := opens_ofByte lead
  rw [opened] at opens
  have first (base : Nat) (least : base ≤ lead.toNat) :
      UInt8.ofNat (lead.toNat - base + base) = lead := by
    rw [Nat.sub_add_cancel least, UInt8.ofNat_toNat]
  -- the range of the second byte keeps the number as large as the length of its code asks,
  -- no surrogate, and no larger than the last code point
  cases opens with
  | two least most bits owed admits =>
    rw [Begun.finishes_last_iff _ _ owed] at finishes
    obtain ⟨second, rfl, admitted, rfl⟩ := finishes
    rw [admits] at admitted
    have number := begun.bits_next second
    rw [utf8EncodeChar_ofNat_two _ (.inl (by omega)) (by omega) (by omega), Begun.bits_next_div,
      Begun.continuation_bits_next _ _ admitted, bits, first _ (by omega)]
  | three least most bits owed admits =>
    rw [Begun.finishes_more_iff _ _ (by omega)] at finishes
    obtain ⟨second, rest, rfl, second_admitted, finishes⟩ := finishes
    rw [Begun.finishes_last_iff _ _ (by simp [owed])] at finishes
    obtain ⟨third, rfl, third_admitted, rfl⟩ := finishes
    rw [admits] at second_admitted
    rw [Begun.admits_next_iff] at third_admitted
    have number := (begun.next second).bits_next third
    have middle := begun.bits_next second
    have upper : ((begun.next second).next third).bits / 4096 = begun.bits := by omega
    have valid : ((begun.next second).next third).bits.isValidChar := by
      unfold Nat.isValidChar
      omega
    rw [utf8EncodeChar_ofNat_three _ valid (by omega) (by omega), upper, Begun.bits_next_div,
      Begun.continuation_bits_next _ _ third_admitted,
      Begun.continuation_bits_next _ _ second_admitted.1, bits, first _ least]
  | four least most bits owed admits =>
    rw [Begun.finishes_more_iff _ _ (by omega)] at finishes
    obtain ⟨second, rest, rfl, second_admitted, finishes⟩ := finishes
    rw [Begun.finishes_more_iff _ _ (by simp [owed])] at finishes
    obtain ⟨third, rest, rfl, third_admitted, finishes⟩ := finishes
    rw [Begun.finishes_last_iff _ _ (by simp [owed])] at finishes
    obtain ⟨fourth, rfl, fourth_admitted, rfl⟩ := finishes
    rw [admits] at second_admitted
    rw [Begun.admits_next_iff] at third_admitted fourth_admitted
    have number := ((begun.next second).next third).bits_next fourth
    have lower := (begun.next second).bits_next third
    have middle := begun.bits_next second
    have upper : (((begun.next second).next third).next fourth).bits / 4096 =
        (begun.next second).bits := by omega
    have top : (((begun.next second).next third).next fourth).bits / 262144 = begun.bits := by
      omega
    have valid : (((begun.next second).next third).next fourth).bits.isValidChar := by
      unfold Nat.isValidChar
      omega
    rw [utf8EncodeChar_ofNat_four _ valid (by omega), top, upper, Begun.bits_next_div,
      Begun.continuation_bits_next _ _ fourth_admitted,
      Begun.continuation_bits_next _ _ third_admitted,
      Begun.continuation_bits_next _ _ second_admitted.1, bits, first _ least]

/-- The decoder admits every code and makes the character of it. -/
theorem ofByte_of_utf8EncodeChar {lead : UInt8} {rest : Bytes} {char : Char}
    (code : String.utf8EncodeChar char = lead :: rest) :
    (Opening.ofByte lead = .whole char ∧ rest = []) ∨
      ∃ begun, Opening.ofByte lead = .begun begun ∧ begun.Finishes rest char := by
  have valid : char.val.toNat.isValidChar := char.valid
  have self : Char.ofNat char.val.toNat = char := Char.ofNat_toNat char
  rw [← self] at code ⊢
  generalize char.val.toNat = number at valid code ⊢
  have first (start : Nat) : UInt8.ofNat start = lead ↔ start % 256 = lead.toNat := by
    rw [← UInt8.toNat_inj, UInt8.toNat_ofNat']
  have range := valid
  unfold Nat.isValidChar at range
  -- the number tells the length of the code, and so does the first byte
  have opens := opens_ofByte lead
  generalize opened : Opening.ofByte lead = opening at *
  rcases Nat.lt_or_ge number 0x80 with one | several
  · rw [utf8EncodeChar_ofNat_one number valid one, List.cons.injEq, first] at code
    obtain ⟨start, rfl⟩ := code
    cases opens with
    | one ascii =>
      have value : lead.toNat = number := by omega
      exact .inl ⟨by rw [value], rfl⟩
    | _ => omega
  rcases Nat.lt_or_ge number 0x800 with two | many
  · rw [utf8EncodeChar_ofNat_two number valid several two, List.cons.injEq, first] at code
    obtain ⟨start, rfl⟩ := code
    cases opens with
    | two least most bits owed admits =>
      refine .inr ⟨_, rfl, Begun.finishes_one _ number owed (by omega) ?_⟩
      rw [admits, toNat_continuation]
      omega
    | _ => omega
  rcases Nat.lt_or_ge number 0x10000 with three | four
  · rw [utf8EncodeChar_ofNat_three number valid many three, List.cons.injEq, first] at code
    obtain ⟨start, rfl⟩ := code
    cases opens with
    | three least most bits owed admits =>
      refine .inr ⟨_, rfl, Begun.finishes_two _ number owed (by omega) ?_⟩
      rw [admits, toNat_continuation]
      omega
    | _ => omega
  · rw [utf8EncodeChar_ofNat_four number valid four, List.cons.injEq, first] at code
    obtain ⟨start, rfl⟩ := code
    cases opens with
    | four least most bits owed admits =>
      refine .inr ⟨_, rfl, Begun.finishes_three _ number owed (by omega) ?_⟩
      rw [admits, toNat_continuation]
      omega
    | _ => omega

/-- A byte that opens no character begins no code. -/
theorem not_isPrefix_of_invalid {lead : UInt8} (opened : Opening.ofByte lead = .invalid)
    (char : Char) : ¬ [lead] <+: String.utf8EncodeChar char := by
  rintro ⟨rest, code⟩
  rcases ofByte_of_utf8EncodeChar code.symm with ⟨whole, -⟩ | ⟨begun, begins, -⟩
  · rw [opened] at whole
    exact nomatch whole
  · rw [opened] at begins
    exact nomatch begins

/-! ## No code begins another -/

theorem Begun.Finishes.ne_nil {begun : Begun} {rest : Bytes} {char : Char}
    (finishes : begun.Finishes rest char) : rest ≠ [] := by
  cases finishes <;> exact List.cons_ne_nil _ _

theorem Begun.Finishes.eq_of_append {begun : Begun} {rest more : Bytes} {char other : Char}
    (finishes : begun.Finishes rest char) (longer : begun.Finishes (rest ++ more) other) :
    char = other := by
  induction finishes with
  | last _ one =>
    rw [finishes_last_iff _ _ one] at longer
    obtain ⟨byte, same, -, rfl⟩ := longer
    rw [(List.cons.inj same).1]
  | more _ several _ ih =>
    rw [finishes_more_iff _ _ several] at longer
    obtain ⟨byte, later, same, -, finishes⟩ := longer
    obtain ⟨rfl, rfl⟩ := List.cons.inj same
    exact ih finishes

theorem eq_of_isPrefix_utf8EncodeChar {char other : Char}
    (begins : String.utf8EncodeChar char <+: String.utf8EncodeChar other) : char = other := by
  obtain ⟨more, longer⟩ := begins
  obtain ⟨lead, rest, code⟩ := List.exists_cons_of_ne_nil (String.utf8EncodeChar_ne_nil (c := char))
  rw [code, List.cons_append] at longer
  rcases ofByte_of_utf8EncodeChar code with ⟨whole, rfl⟩ | ⟨begun, begins, finishes⟩ <;>
    rcases ofByte_of_utf8EncodeChar longer.symm with ⟨opened, -⟩ | ⟨_, opened, longer⟩
  · rw [whole, Opening.whole.injEq] at opened
    exact opened
  · rw [whole] at opened
    exact nomatch opened
  · rw [begins] at opened
    exact nomatch opened
  · rw [begins, Opening.begun.injEq] at opened
    obtain rfl := opened
    exact finishes.eq_of_append longer

/-! ## Every byte of a code but the first has its highest bit set -/

theorem le_of_admits_of_begun {lead byte : UInt8} {begun : Begun}
    (begins : Opening.ofByte lead = .begun begun) (admitted : begun.admits byte = true) :
    0x80 ≤ byte.toNat := by
  have opens := opens_ofByte lead
  rw [begins] at opens
  cases opens with
  | two _ _ _ _ admits | three _ _ _ _ admits | four _ _ _ _ admits =>
    rw [admits] at admitted
    omega

theorem Begun.Finishes.le_of_mem {begun : Begun} {rest : Bytes} {char : Char}
    (finishes : begun.Finishes rest char)
    (least : ∀ byte, begun.admits byte = true → 0x80 ≤ byte.toNat) :
    ∀ byte ∈ rest, 0x80 ≤ byte.toNat := by
  induction finishes with
  | last admitted _ => simpa using least _ admitted
  | @more begun first _ _ admitted _ _ ih =>
    -- once one byte is admitted, the range of the next is the usual one
    rw [List.forall_mem_cons]
    exact ⟨least _ admitted, ih fun byte inside => ((begun.admits_next_iff first byte).mp inside).1⟩

theorem le_of_mem_tail_utf8EncodeChar (char : Char) :
    ∀ byte ∈ (String.utf8EncodeChar char).tail, 0x80 ≤ byte.toNat := by
  obtain ⟨lead, rest, code⟩ := List.exists_cons_of_ne_nil (String.utf8EncodeChar_ne_nil (c := char))
  rw [code, List.tail_cons]
  rcases ofByte_of_utf8EncodeChar code with ⟨-, rfl⟩ | ⟨begun, begins, finishes⟩
  · exact fun _ member => absurd member List.not_mem_nil
  · exact finishes.le_of_mem fun _ => le_of_admits_of_begun begins

/-! ## Beginnings of codes -/

/-- The bytes after which a character has begun. -/
inductive Reached : Bytes → Begun → Prop
  | opened {lead : UInt8} {begun : Begun} (begins : Opening.ofByte lead = .begun begun) :
      Reached [lead] begun
  | continued {bytes : Bytes} {begun : Begun} {byte : UInt8} (reached : Reached bytes begun)
      (admitted : begun.admits byte = true) (several : begun.owed ≠ 1) :
      Reached (bytes ++ [byte]) (begun.next byte)

/-- A character that takes one byte more can be finished. -/
theorem Begun.exists_finishes (begun : Begun) (byte : UInt8) (admitted : begun.admits byte = true)
    (owing : begun.owed ≠ 0) : ∃ rest char, begun.Finishes rest char := by
  induction left : begun.owed - 1 generalizing begun byte with
  | zero => exact ⟨_, _, .last admitted (by omega)⟩
  | succ left ih =>
    obtain ⟨rest, char, finishes⟩ := ih (begun.next byte) (continuation 0)
      (begun.admits_next_continuation byte 0) (by rw [owed_next]; omega) (by rw [owed_next]; omega)
    exact ⟨_, _, .more admitted (by omega) finishes⟩

theorem exists_admits_of_begun {lead : UInt8} {begun : Begun}
    (begins : Opening.ofByte lead = .begun begun) :
    begun.owed ≠ 0 ∧ ∃ byte, begun.admits byte = true := by
  have opens := opens_ofByte lead
  rw [begins] at opens
  cases opens with
  | two _ _ _ owed admits => exact ⟨by omega, 0x80, (admits _).mpr (by decide)⟩
  | three _ _ _ owed admits | four _ _ _ owed admits =>
    refine ⟨by omega, ?_⟩
    -- no first byte asks both for a large second byte and for a small one
    by_cases low : begun.admits 0x80 = true
    · exact ⟨0x80, low⟩
    · refine ⟨0xA0, ?_⟩
      simp only [admits, UInt8.reduceToNat] at low ⊢
      omega

namespace Reached

variable {bytes : Bytes} {begun : Begun}

theorem ne_nil (reached : Reached bytes begun) : bytes ≠ [] := by
  cases reached <;> simp

/-- What finishes a character that has begun is the rest of a code. -/
theorem utf8EncodeChar_of_finishes (reached : Reached bytes begun) {rest : Bytes} {char : Char}
    (finishes : begun.Finishes rest char) : String.utf8EncodeChar char = bytes ++ rest := by
  induction reached generalizing rest with
  | opened begins => exact Utf8.utf8EncodeChar_of_finishes begins finishes
  | continued _ admitted several ih =>
    rw [ih (.more admitted several finishes), List.append_assoc]
    rfl

theorem finishes_of_utf8EncodeChar (reached : Reached bytes begun) {rest : Bytes} {char : Char}
    (more : rest ≠ []) (code : String.utf8EncodeChar char = bytes ++ rest) :
    begun.Finishes rest char := by
  induction reached generalizing rest with
  | opened begins =>
    rcases ofByte_of_utf8EncodeChar code with ⟨-, nothing⟩ | ⟨other, same, finishes⟩
    · exact absurd nothing more
    · rw [begins, Opening.begun.injEq] at same
      rwa [same]
  | continued _ admitted several ih =>
    rw [List.append_assoc] at code
    have finishes := ih (List.cons_ne_nil _ rest) code
    rw [Begun.finishes_more_iff _ _ several] at finishes
    obtain ⟨_, _, same, -, finishes⟩ := finishes
    obtain ⟨rfl, rfl⟩ := List.cons.inj same
    exact finishes

theorem owed_ne_zero (reached : Reached bytes begun) : begun.owed ≠ 0 := by
  induction reached with
  | opened begins => exact (exists_admits_of_begun begins).1
  | continued _ _ several ih =>
    rw [Begun.owed_next]
    omega

/-- The bytes of a character that has begun are a proper beginning of a code. -/
theorem exists_rest (reached : Reached bytes begun) :
    ∃ rest char, rest ≠ [] ∧ String.utf8EncodeChar char = bytes ++ rest := by
  have owing := reached.owed_ne_zero
  have finish : ∃ rest char, begun.Finishes rest char := by
    cases reached with
    | opened begins =>
      obtain ⟨-, byte, admitted⟩ := exists_admits_of_begun begins
      exact begun.exists_finishes byte admitted owing
    | continued _ _ _ =>
      exact Begun.exists_finishes _ _ (Begun.admits_next_continuation _ _ 0) owing
  obtain ⟨rest, char, finishes⟩ := finish
  exact ⟨rest, char, finishes.ne_nil, reached.utf8EncodeChar_of_finishes finishes⟩

/-- A byte that is not admitted goes on with no code. -/
theorem not_isPrefix (reached : Reached bytes begun) {byte : UInt8}
    (refused : ¬ begun.admits byte = true) (char : Char) :
    ¬ bytes ++ [byte] <+: String.utf8EncodeChar char := by
  rintro ⟨rest, code⟩
  rw [List.append_assoc] at code
  have finishes := reached.finishes_of_utf8EncodeChar (List.cons_ne_nil _ rest) code.symm
  cases finishes with
  | last admitted _ => exact refused admitted
  | more admitted _ _ => exact refused admitted

end Reached

end Console.Utf8
