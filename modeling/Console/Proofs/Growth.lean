import Console.Proofs.Capacity
import Mathlib.Algebra.Group.Nat.Defs
import Mathlib.Logic.Function.Iterate
import Mathlib.Order.Bounds.Defs
import Mathlib.Order.Defs.LinearOrder
import Mathlib.Tactic.ByContra

/-!
# How far a buffer grows

The loop that enlarges a buffer is told here round by round. It comes to an end
with room for what is needed and within a machine word, also where a double does
not fit in one. A buffer filled from nothing has the least capacity that doubling
reaches, so its capacity tells how many bytes it holds and not how they came.
-/
namespace Console.Scratch

/-- One round of enlarging a target: its double, or what is needed if that is no machine word. -/
def enlarge (needed target : Nat) : Nat :=
  if 2 * target < wordBound then 2 * target else needed

/-! ## The rounds -/

/-- Doubling goes round by round as long as the target falls short. -/
theorem double_eq_iterate (capacity needed : Nat) (positive : 0 < capacity) :
    ∃ rounds, (enlarge needed)^[rounds] capacity = double capacity needed positive ∧
      ∀ earlier < rounds, (enlarge needed)^[earlier] capacity < needed := by
  fun_induction double capacity needed positive with
  | case1 capacity positive short fits ih =>
    obtain ⟨rounds, reached, before⟩ := ih
    have first : enlarge needed capacity = 2 * capacity := if_pos fits
    refine ⟨rounds + 1, ?_, ?_⟩
    · rw [Function.iterate_succ_apply, first, reached]
    · intro earlier early
      cases earlier with
      | zero => exact short
      | succ earlier =>
        rw [Function.iterate_succ_apply, first]
        exact before earlier (by omega)
  | case2 capacity positive short outgrown =>
    have first : enlarge needed capacity = needed := if_neg outgrown
    refine ⟨1, first, ?_⟩
    intro earlier early
    obtain rfl : earlier = 0 := by omega
    exact short
  | case3 capacity positive enough =>
    exact ⟨0, rfl, fun earlier early => absurd early (Nat.not_lt_zero earlier)⟩

theorem double_lt_wordBound (capacity needed : Nat) (positive : 0 < capacity)
    (word : capacity < wordBound) (needed_word : needed < wordBound) :
    double capacity needed positive < wordBound := by
  fun_induction double capacity needed positive with
  | case1 capacity positive short fits ih => exact ih fits
  | case2 capacity positive short outgrown => exact needed_word
  | case3 capacity positive enough => exact word

/-! ## The capacity reached -/

/-- While every double fits, the target is the first of the doubles that suffices. -/
theorem double_eq_mul_pow (capacity needed : Nat) (positive : 0 < capacity)
    (safe : needed ≤ safeSize) :
    ∃ power, double capacity needed positive = capacity * 2 ^ power ∧
      ∀ less < power, capacity * 2 ^ less < needed := by
  fun_induction double capacity needed positive with
  | case1 capacity positive short fits ih =>
    obtain ⟨power, reached, before⟩ := ih
    have shift (power : Nat) : 2 * capacity * 2 ^ power = capacity * 2 ^ (power + 1) := by
      rw [Nat.pow_succ, Nat.mul_comm 2 capacity, Nat.mul_assoc, Nat.mul_comm 2]
    refine ⟨power + 1, by rw [reached, shift], ?_⟩
    intro less below
    cases less with
    | zero => simpa using short
    | succ less =>
      rw [← shift]
      exact before less (by omega)
  | case2 capacity positive short outgrown =>
    -- what falls short of a quarter of a word can be doubled
    exfalso
    unfold wordBound safeSize at *
    omega
  | case3 capacity positive enough =>
    exact ⟨0, by simp, fun less below => absurd below (Nat.not_lt_zero less)⟩

/-- Growing from nothing for some bytes leads to the least double of the initial capacity
that holds them. -/
theorem grow_isLeast (needed : Nat) (anything : needed ≠ 0) (safe : needed ≤ safeSize) :
    IsLeast {size | needed ≤ size ∧ ∃ power, size = initialCapacity * 2 ^ power}
      (grow 0 needed) := by
  have positive : 0 < initialCapacity := by decide
  have grown : grow 0 needed = double initialCapacity needed positive := if_pos (by omega)
  obtain ⟨power, reached, before⟩ := double_eq_mul_pow initialCapacity needed positive safe
  rw [grown]
  refine ⟨⟨le_double _ _ _, power, reached⟩, ?_⟩
  rintro size ⟨enough, other, rfl⟩
  rw [reached]
  -- a smaller power has been tried and fell short
  have later : power ≤ other := by
    by_contra less
    have short := before other (by omega)
    omega
  exact Nat.mul_le_mul_left _ (Nat.pow_le_pow_right (by decide) later)

/-! ## Chunk after chunk -/

def ofChunks (chunks : List Bytes) : Scratch := chunks.foldl extend {}

theorem toList_bytes_foldl_extend (chunks : List Bytes) (scratch : Scratch) :
    (chunks.foldl extend scratch).bytes.toList = scratch.bytes.toList ++ chunks.flatten := by
  induction chunks generalizing scratch with
  | nil => simp
  | cons chunk rest ih =>
    rw [List.foldl_cons, ih, toList_bytes_extend, List.flatten_cons, List.append_assoc]

theorem fitted_foldl_extend (chunks : List Bytes) (scratch : Scratch) (fitted : scratch.Fitted) :
    (chunks.foldl extend scratch).Fitted := by
  induction chunks generalizing scratch with
  | nil => exact fitted
  | cons chunk rest ih => exact ih _ (fitted_extend scratch chunk fitted)

theorem toList_bytes_ofChunks (chunks : List Bytes) :
    (ofChunks chunks).bytes.toList = chunks.flatten :=
  toList_bytes_foldl_extend chunks {}

theorem capacity_ofChunks (chunks : List Bytes) :
    (ofChunks chunks).capacity = grow 0 chunks.flatten.length := by
  have fitted : (ofChunks chunks).Fitted := fitted_foldl_extend chunks {} fitted_empty
  have size : (ofChunks chunks).size = chunks.flatten.length := by
    rw [Scratch.size, ← Array.length_toList, toList_bytes_ofChunks]
  rw [fitted, size]

/-- The loop that enlarges a buffer ends with room for what is needed, within a machine word,
whether or not a double leaves the word. A buffer filled chunk by chunk holds all chunks, and
has the least capacity for them that doubling reaches, however the bytes were cut. -/
theorem grows_enough_and_no_more :
    (∀ capacity length chunk : Nat,
      capacity < wordBound → length ≤ capacity → length + chunk < wordBound →
      let needed := length + chunk
      let start := max capacity initialCapacity
      ∃ rounds,
        let target := (enlarge needed)^[rounds] start
        (∀ earlier < rounds, (enlarge needed)^[earlier] start < needed) ∧
        needed ≤ target ∧ length ≤ target ∧ target < wordBound ∧
        (capacity < needed → grow capacity needed = target)) ∧
    (∀ chunks : List Bytes, chunks.flatten.length ≤ 2 ^ 62 →
      let scratch := ofChunks chunks
      let total := chunks.flatten.length
      scratch.bytes.toList = chunks.flatten ∧
      (total = 0 → scratch.capacity = 0) ∧
      (total ≠ 0 →
        IsLeast {size | total ≤ size ∧ ∃ power, size = 128 * 2 ^ power} scratch.capacity) ∧
      ∀ others : List Bytes, others.flatten.length = total →
        (ofChunks others).capacity = scratch.capacity) := by
  constructor
  · intro capacity length chunk word within sum needed start
    have positive : 0 < start := Nat.lt_of_lt_of_le (by decide) (Nat.le_max_right _ _)
    have start_word : start < wordBound := Nat.max_lt.mpr ⟨word, by decide⟩
    obtain ⟨rounds, reached, before⟩ := double_eq_iterate start needed positive
    have enough := le_double start needed positive
    have inside := double_lt_wordBound start needed positive start_word sum
    refine ⟨rounds, before, ?_⟩
    rw [reached]
    exact ⟨enough, Nat.le_trans (Nat.le_add_right _ _) enough, inside, fun short => if_pos short⟩
  · intro chunks safe scratch total
    have capacity : scratch.capacity = grow 0 total := capacity_ofChunks chunks
    refine ⟨toList_bytes_ofChunks chunks, ?_, ?_, ?_⟩
    · intro nothing
      rw [capacity, nothing]
      rfl
    · intro anything
      rw [capacity]
      exact grow_isLeast total anything safe
    · intro others same
      rw [capacity, capacity_ofChunks, same]

/-- One byte, nothing, and then one byte more than the initial capacity has room for. -/
def unevenChunks : List Bytes := [[120], [], List.replicate 128 120]

/-- A full buffer of half a machine word has no double and still grows to the last word, and
129 bytes in three chunks take two initial capacities. -/
theorem grows_enough_of_half_word :
    (2 ^ 63 < wordBound ∧ 2 ^ 63 + (2 ^ 63 - 1) < wordBound ∧
      2 ^ 64 - 1 ≤ grow (2 ^ 63) (2 ^ 64 - 1)) ∧
    unevenChunks.flatten.length = 129 ∧ 129 ≤ (ofChunks unevenChunks).capacity ∧
      (ofChunks unevenChunks).capacity ≤ 128 * 2 ^ 1 := by
  obtain ⟨loop, filling⟩ := grows_enough_and_no_more
  obtain ⟨rounds, -, enough, -, -, grown⟩ :=
    loop (2 ^ 63) (2 ^ 63) (2 ^ 63 - 1) (by decide) (by decide) (by decide)
  have total : unevenChunks.flatten.length = 129 := by simp [unevenChunks]
  obtain ⟨-, -, least, -⟩ := filling unevenChunks (by omega)
  rw [total] at least
  have capacity := least (by decide)
  refine ⟨⟨by decide, by decide, ?_⟩, total, capacity.1.1, capacity.2 ⟨by decide, 1, rfl⟩⟩
  have target := grown (by decide)
  exact target ▸ enough

end Console.Scratch
