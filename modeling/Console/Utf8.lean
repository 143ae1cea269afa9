import Console.Byte

/-!
# Reading bytes as Unicode

Every byte string reads as a string of characters. Bytes that are no UTF-8
are replaced: each longest run of bytes that begins some encoded character,
and is then broken off, reads as one replacement character, and so does each
byte that begins none.

The decoder takes one byte at a time. What it has to remember between bytes
is the character that has begun: the bits so far, how many bytes it still
needs, and the range in which the next one must lie. That range is narrower
than usual for the second byte of a few characters, which keeps out overlong
forms, surrogates and values above the last code point.
-/
namespace Console.Utf8

/-- Stands for bytes that encode no character. -/
def replacement : Char := '\uFFFD'

/-- A character of which some bytes have come. -/
structure Begun where
  bits : Nat
  owed : Nat
  low : UInt8 := 0x80
  high : UInt8 := 0xBF
deriving DecidableEq

/-- How a byte opens a character: it may be one, begin one, or do neither. -/
inductive Opening where
  | whole (char : Char)
  | begun (begun : Begun)
  | invalid

def Opening.ofByte (byte : UInt8) : Opening :=
  if byte < 0x80 then .whole (Char.ofNat byte.toNat)
  else if byte < 0xC2 then .invalid
  else if byte < 0xE0 then .begun { bits := byte.toNat - 0xC0, owed := 1 }
  -- after 0xE0, and after 0xF0, a smaller second byte would make an overlong form
  else if byte = 0xE0 then .begun { bits := 0, owed := 2, low := 0xA0 }
  -- after 0xED a larger second byte would make a surrogate
  else if byte = 0xED then .begun { bits := 0x0D, owed := 2, high := 0x9F }
  else if byte < 0xF0 then .begun { bits := byte.toNat - 0xE0, owed := 2 }
  else if byte = 0xF0 then .begun { bits := 0, owed := 3, low := 0x90 }
  else if byte < 0xF4 then .begun { bits := byte.toNat - 0xF0, owed := 3 }
  -- after 0xF4 a larger second byte would lead past the last code point
  else if byte = 0xF4 then .begun { bits := 0x04, owed := 3, high := 0x8F }
  else .invalid

def Begun.admits (begun : Begun) (byte : UInt8) : Bool :=
  begun.low ≤ byte && byte ≤ begun.high

structure Decoder where
  output : Array Char := #[]
  begun : Option Begun := none

namespace Decoder

/-- Takes a byte when no character has begun. -/
def start (decoder : Decoder) (byte : UInt8) : Decoder :=
  match Opening.ofByte byte with
  | .whole char => { decoder with output := decoder.output.push char }
  | .begun begun => { decoder with begun := some begun }
  | .invalid => { decoder with output := decoder.output.push replacement }

/-- A character that breaks off is replaced, and nothing has begun any more. -/
def breakOff (decoder : Decoder) : Decoder :=
  match decoder.begun with
  | none => decoder
  | some _ => { output := decoder.output.push replacement, begun := none }

/-- Takes a byte. One that cannot continue the character begun opens another. -/
def feed (decoder : Decoder) (byte : UInt8) : Decoder :=
  match decoder.begun with
  | none => decoder.start byte
  | some begun =>
    if begun.admits byte then
      let bits := begun.bits * 64 + byte.toNat % 64
      if begun.owed = 1 then
        { output := decoder.output.push (Char.ofNat bits), begun := none }
      else
        { decoder with begun := some { bits, owed := begun.owed - 1 } }
    else decoder.breakOff.start byte

end Decoder

def decode (bytes : Bytes) : List Char :=
  (bytes.foldl Decoder.feed {}).breakOff.output.toList

end Console.Utf8
