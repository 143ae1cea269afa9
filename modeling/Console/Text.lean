import Console.Utf8

/-!
# Texts

A text is a byte string without a zero. In memory it is followed by one zero,
its terminator, so whoever scans the memory for a zero sees the same content.

There are two ways to take a text from bytes. `Text.ofBytes` keeps what comes
before the first zero of any byte string. `Text.ofMemory` measures how far it
is to the terminator and takes that many bytes, as a holder of an address does.
-/
namespace Console

@[ext]
structure Text where
  content : Bytes
  zero_not_mem : 0 ∉ content
deriving DecidableEq

/-- How many bytes come before the first zero; all of them if there is none. -/
def lengthBeforeZero (bytes : Bytes) : Nat := bytes.findIdx (· == 0)

private theorem zero_not_mem_takeWhile (bytes : Bytes) :
    (0 : UInt8) ∉ bytes.takeWhile (· != 0) := by
  intro member
  have kept := List.all_takeWhile (p := (· != (0 : UInt8))) (l := bytes)
  simpa using List.all_eq_true.mp kept 0 member

theorem take_lengthBeforeZero (bytes : Bytes) :
    bytes.take (lengthBeforeZero bytes) = bytes.takeWhile (· != 0) := by
  induction bytes with
  | nil => rfl
  | cons byte rest ih =>
    simp only [lengthBeforeZero, List.findIdx_cons, List.takeWhile_cons] at *
    cases zero : byte == 0 <;> simp [bne, zero, ih]

namespace Text

/-- The text a byte string holds: what comes before its first zero. -/
def ofBytes (bytes : Bytes) : Text where
  content := bytes.takeWhile (· != 0)
  zero_not_mem := zero_not_mem_takeWhile bytes

def ofString (string : String) : Text := ofBytes (utf8 string)

def empty : Text where
  content := []
  zero_not_mem := List.not_mem_nil

def length (text : Text) : Nat := text.content.length

def isEmpty (text : Text) : Bool := text.length == 0

/-- The memory a text fills: its content and the terminator. -/
def terminated (text : Text) : Bytes := text.content ++ [0]

/-- The text whose content fills memory exactly up to a terminator at the end,
if memory is of that form. -/
def ofTerminated? (memory : Bytes) : Option Text :=
  if valid : memory.getLast? = some 0 ∧ 0 ∉ memory.dropLast then
    some ⟨memory.dropLast, valid.2⟩
  else none

/-- The memory that is filled to make a text of bytes: what comes before their
first zero, and a terminator. -/
def filled (bytes : Bytes) : Bytes := bytes.take (lengthBeforeZero bytes) ++ [0]

/-- The text that begins where memory begins and is measured up to its
terminator. -/
def ofMemory (memory : Bytes) : Text where
  content := memory.take (lengthBeforeZero memory)
  zero_not_mem := take_lengthBeforeZero memory ▸ zero_not_mem_takeWhile memory

def view (text : Text) : Bytes := (ofMemory text.terminated).content

def roundTrip (text : Text) : Text := ofMemory text.terminated

def display (text : Text) : String := String.ofList (Utf8.decode text.content)

@[simp]
theorem content_ofBytes (bytes : Bytes) : (ofBytes bytes).content = bytes.takeWhile (· != 0) := rfl

@[simp]
theorem content_empty : empty.content = [] := rfl

theorem ofMemory_eq_ofBytes (memory : Bytes) : ofMemory memory = ofBytes memory :=
  Text.ext (take_lengthBeforeZero memory)

theorem takeWhile_append_of_zero_not_mem (bytes rest : Bytes) (clean : 0 ∉ bytes) :
    (bytes ++ rest).takeWhile (· != 0) = bytes ++ rest.takeWhile (· != 0) := by
  apply List.takeWhile_append_of_pos
  intro byte member
  rw [bne_iff_ne]
  exact fun zero => clean (zero ▸ member)

/-- Bytes without a zero are a text as they are. -/
theorem content_ofBytes_of_zero_not_mem (bytes : Bytes) (clean : 0 ∉ bytes) :
    (ofBytes bytes).content = bytes := by
  have whole := takeWhile_append_of_zero_not_mem bytes [] clean
  rwa [List.append_nil, List.takeWhile_nil, List.append_nil] at whole

theorem ofBytes_content (text : Text) : ofBytes text.content = text :=
  Text.ext (content_ofBytes_of_zero_not_mem text.content text.zero_not_mem)

theorem ofBytes_eq_empty_iff (bytes : Bytes) :
    ofBytes bytes = empty ↔ ∀ byte ∈ bytes.head?, byte = 0 := by
  cases bytes with
  | nil => simp [Text.ext_iff, empty]
  | cons first rest => simp [Text.ext_iff, empty, List.takeWhile_cons]

/-- The holder of an address sees the text that was put there. -/
theorem ofMemory_terminated (text : Text) : ofMemory text.terminated = text := by
  rw [ofMemory_eq_ofBytes]
  apply Text.ext
  rw [content_ofBytes, terminated, takeWhile_append_of_zero_not_mem _ [0] text.zero_not_mem]
  exact List.append_nil _

theorem lengthBeforeZero_terminated (text : Text) :
    lengthBeforeZero text.terminated = text.length := by
  have clean : text.content.findIdx (· == 0) = text.content.length := by
    apply List.findIdx_eq_length.mpr
    intro byte member
    rw [beq_eq_false_iff_ne]
    exact fun zero => text.zero_not_mem (zero ▸ member)
  rw [lengthBeforeZero, terminated, List.findIdx_append, clean]
  simp [length]

theorem content_ofBytes_append (text : Text) (bytes : Bytes) (clean : 0 ∉ bytes) :
    (ofBytes (text.content ++ bytes)).content = text.content ++ bytes := by
  apply content_ofBytes_of_zero_not_mem
  intro member
  rcases List.mem_append.mp member with front | back
  · exact text.zero_not_mem front
  · exact clean back

end Text
end Console
