import Console.Text

/-!
# Memory handed to the caller

A text handed over lives in a block of its own. Its address stays good until
it is released, and no other block ever has the same address.
-/
namespace Console

/-- An address as callers hold it. -/
inductive Pointer where
  | null
  /-- A text that lives as long as the program. -/
  | constant (text : Text)
  /-- A text in a block that was handed over. -/
  | block (index : Nat)
deriving DecidableEq

/-- The blocks handed over so far; a released one holds nothing. -/
structure Heap where
  blocks : Array (Option Bytes) := #[]
deriving DecidableEq

namespace Heap

/-- Puts a text with its terminator in a new block. -/
def allocate (heap : Heap) (text : Text) : Pointer × Heap :=
  (.block heap.blocks.size, { blocks := heap.blocks.push (some text.terminated) })

/-- The memory of a block that is not released. -/
def load? (heap : Heap) (index : Nat) : Option Bytes := heap.blocks[index]?.join

def release (heap : Heap) (index : Nat) : Heap where
  blocks := heap.blocks.setIfInBounds index none

def store (heap : Heap) (index : Nat) (memory : Bytes) : Heap where
  blocks := heap.blocks.setIfInBounds index (some memory)

theorem load?_allocate_self (heap : Heap) (text : Text) :
    (heap.allocate text).2.load? heap.blocks.size = some text.terminated := by
  simp [load?, allocate]

theorem load?_allocate_of_ne (heap : Heap) (text : Text) (index : Nat)
    (other : index ≠ heap.blocks.size) :
    (heap.allocate text).2.load? index = heap.load? index := by
  simp [load?, allocate, Array.getElem?_push, other]

theorem load?_release_of_ne (heap : Heap) (released index : Nat) (other : index ≠ released) :
    (heap.release released).load? index = heap.load? index := by
  simp [load?, release, Array.getElem?_setIfInBounds_ne other.symm]

theorem load?_release_self (heap : Heap) (index : Nat) :
    (heap.release index).load? index = none := by
  simp only [load?, release, Array.getElem?_setIfInBounds_self]
  split <;> rfl

theorem load?_store_of_ne (heap : Heap) (stored index : Nat) (memory : Bytes)
    (other : index ≠ stored) : (heap.store stored memory).load? index = heap.load? index := by
  simp [load?, store, Array.getElem?_setIfInBounds_ne other.symm]

theorem lt_size_of_load? (heap : Heap) (index : Nat) (memory : Bytes)
    (live : heap.load? index = some memory) : index < heap.blocks.size := by
  cases Nat.lt_or_ge index heap.blocks.size with
  | inl inside => exact inside
  | inr outside => simp [load?, outside] at live

theorem load?_store_self (heap : Heap) (index : Nat) (before memory : Bytes)
    (live : heap.load? index = some before) :
    (heap.store index memory).load? index = some memory := by
  have inside := heap.lt_size_of_load? index before live
  simp [load?, store, inside]

end Heap
end Console
