/-!
# Bytes

Everything that is read, held or printed is a byte string. This module names
the bytes that end a line, gives the bytes of a Unicode string, and says what
it means to let at most so many bytes pass at once.
-/
namespace Console

abbrev Bytes := List UInt8

def lineFeed : UInt8 := 0x0A

def carriageReturn : UInt8 := 0x0D

/-- A line ends at a line feed or at a carriage return. -/
def endsLine (byte : UInt8) : Bool := byte == lineFeed || byte == carriageReturn

def utf8 (string : String) : Bytes := string.toList.flatMap String.utf8EncodeChar

def hexDigit (value : Nat) : Char :=
  if value < 10 then Char.ofNat (48 + value) else Char.ofNat (87 + value)

def hexPair (byte : UInt8) : List Char :=
  [hexDigit (byte.toNat / 16), hexDigit (byte.toNat % 16)]

/-- What came after the first `count` bytes of all that came. -/
def bytesSince (bytes : Array UInt8) (count : Nat) : Bytes :=
  (bytes.extract count bytes.size).toList

theorem bytesSince_of_append (before after : Array UInt8) (bytes : Bytes)
    (appended : after.toList = before.toList ++ bytes) : bytesSince after before.size = bytes := by
  have size : after.size = before.size + bytes.length := by
    rw [← Array.length_toList, appended, List.length_append, Array.length_toList]
  simp [bytesSince, appended, size]

/-- The most bytes that pass at once. Something always passes. -/
structure Portion where
  most : Nat
  most_pos : 0 < most
deriving DecidableEq

/-- The bytes that pass: all of them without a limit, else the first few. -/
def Portion.cut (portion : Option Portion) (bytes : Bytes) : Bytes :=
  match portion with
  | none => bytes
  | some portion => bytes.take portion.most

theorem Portion.cut_isPrefix (portion : Option Portion) (bytes : Bytes) :
    Portion.cut portion bytes <+: bytes := by
  cases portion with
  | none => exact List.prefix_rfl
  | some portion => exact List.take_prefix portion.most bytes

theorem Portion.cut_eq_nil (portion : Option Portion) (bytes : Bytes) :
    Portion.cut portion bytes = [] ↔ bytes = [] := by
  cases portion with
  | none => exact Iff.rfl
  | some portion =>
    have positive := portion.most_pos
    simp only [Portion.cut, List.take_eq_nil_iff]
    constructor
    · rintro (zero | empty)
      · omega
      · exact empty
    · exact Or.inr

end Console
