import Console.Text

/-!
# The buffer of a line

The bytes of a line are gathered in a buffer that grows by doubling. Its
capacity is told in a notice, so it is kept: nothing until a byte comes, then
128, then twice as much whenever it does not suffice. A capacity whose double
would not fit in a machine word grows to what is needed instead.
-/
namespace Console

structure Scratch where
  bytes : Array UInt8 := #[]
  capacity : Nat := 0
deriving DecidableEq

namespace Scratch

/-- The capacity of a buffer that has just begun to grow. -/
def initialCapacity : Nat := 128

/-- Every size is below this bound. -/
def wordBound : Nat := UInt64.size

def size (scratch : Scratch) : Nat := scratch.bytes.size

def isEmpty (scratch : Scratch) : Bool := scratch.bytes.isEmpty

/-- Doubles a capacity until it suffices. -/
def double (capacity needed : Nat) (positive : 0 < capacity) : Nat :=
  if capacity < needed then
    -- a double that leaves the machine word gives way to what is needed
    if 2 * capacity < wordBound then double (2 * capacity) needed (by omega) else needed
  else capacity
termination_by needed - capacity

/-- The capacity after room for `needed` bytes has been asked for. -/
def grow (capacity needed : Nat) : Nat :=
  if capacity < needed then
    double (max capacity initialCapacity) needed (by unfold initialCapacity; omega)
  else capacity

def extend (scratch : Scratch) (chunk : Bytes) : Scratch :=
  let { bytes, capacity } := scratch
  let capacity := grow capacity (bytes.size + chunk.length)
  { bytes := bytes ++ chunk, capacity }

def text (scratch : Scratch) : Text := Text.ofBytes scratch.bytes.toList

@[simp]
theorem toList_bytes_extend (scratch : Scratch) (chunk : Bytes) :
    (scratch.extend chunk).bytes.toList = scratch.bytes.toList ++ chunk := by
  simp [extend]

theorem le_double (capacity needed : Nat) (positive : 0 < capacity) :
    needed ≤ double capacity needed positive := by
  fun_induction double capacity needed positive <;> omega

end Scratch
end Console
