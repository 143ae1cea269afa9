import Console.Reading

/-!
# The capacity of a line's buffer

A buffer that has grown in several steps has the capacity it would have got in
one. So the capacity of a line tells the length of the line and nothing about
the pieces in which it came. This goes on when a doubled capacity would leave
the machine word: from there on a buffer has just the capacity that is needed.
-/
namespace Console

namespace Scratch

/-- Up to this size every doubling fits in a machine word. -/
def safeSize : Nat := UInt64.size / 4

theorem le_double_self (capacity needed : Nat) (positive : 0 < capacity) :
    capacity ≤ double capacity needed positive := by
  fun_induction double capacity needed positive <;> omega

theorem double_of_le (capacity needed : Nat) (positive : 0 < capacity)
    (enough : needed ≤ capacity) : double capacity needed positive = capacity := by
  rw [double, if_neg (by omega)]

/-- Doubling for less first is no detour. -/
theorem double_of_double (capacity less middle needed : Nat) (positive : 0 < capacity)
    (reached : double capacity less positive = middle) (middle_positive : 0 < middle)
    (ordered : less ≤ needed) :
    double middle needed middle_positive = double capacity needed positive := by
  fun_induction double capacity less positive with
  | case1 capacity positive short fits ih =>
    have started : double capacity needed positive = double (2 * capacity) needed (by omega) := by
      rw [double, if_pos (by omega), if_pos fits]
    rw [ih reached, started]
  | case2 capacity positive short outgrown =>
    -- what cannot be doubled grows to what is needed, in one step or in two
    subst reached
    have target : double capacity needed positive = needed := by
      rw [double, if_pos (by omega), if_neg outgrown]
    rw [target, double]
    split
    next more => rw [if_neg (by omega)]
    next enough => omega
  | case3 capacity positive enough =>
    subst reached
    rfl

/-- Growing for less first is no detour either. -/
theorem grow_grow (capacity less needed : Nat) (ordered : less ≤ needed) :
    grow (grow capacity less) needed = grow capacity needed := by
  by_cases short : capacity < less
  · have positive : 0 < max capacity initialCapacity := by
      unfold initialCapacity
      omega
    obtain ⟨middle, reached⟩ : ∃ middle,
      double (max capacity initialCapacity) less positive = middle := ⟨_, rfl⟩
    have started := le_double_self (max capacity initialCapacity) less positive
    rw [reached] at started
    have grown : grow capacity less = middle := (if_pos short).trans reached
    have target : grow capacity needed = double (max capacity initialCapacity) needed positive :=
      if_pos (by omega)
    -- what has grown once is not below the initial capacity any more
    have same : max middle initialCapacity = middle := by omega
    rw [grown, target,
      ← double_of_double _ less middle needed positive reached (by omega) ordered]
    unfold grow
    split
    next => simp only [same]
    next enough => exact (double_of_le middle needed _ (by omega)).symm
  · have kept : grow capacity less = capacity := if_neg short
    rw [kept]

/-- The buffer has grown for the bytes it holds, and for nothing else. -/
def Fitted (scratch : Scratch) : Prop := scratch.capacity = grow 0 scratch.size

theorem fitted_empty : Fitted {} := rfl

theorem size_extend (scratch : Scratch) (chunk : Bytes) :
    (scratch.extend chunk).size = scratch.size + chunk.length := by
  simp only [size, ← Array.length_toList, toList_bytes_extend, List.length_append]

theorem fitted_extend (scratch : Scratch) (chunk : Bytes) (fitted : scratch.Fitted) :
    (scratch.extend chunk).Fitted := by
  have grown : (scratch.extend chunk).capacity =
      grow scratch.capacity (scratch.size + chunk.length) := rfl
  unfold Fitted at *
  rw [size_extend, grown, fitted, grow_grow 0 _ _ (Nat.le_add_right _ _)]

end Scratch

namespace Reading

/-- However a line is delivered, its buffer is fitted. -/
theorem fitted_gather (source : Source) (scratch : Scratch) (fitted : scratch.Fitted) :
    (gather source scratch).scratch.Fitted := by
  fun_induction gather source scratch with
  | case1 source scratch fault after awaited => exact fitted
  | case2 source scratch after awaited => exact fitted
  | case3 source scratch first others after awaited shown all ih =>
    exact ih (Scratch.fitted_extend scratch shown fitted)
  | case4 source scratch first others after awaited shown line last rest ended =>
    exact Scratch.fitted_extend scratch line fitted

end Reading
end Console
