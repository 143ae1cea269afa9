import Console.Text

/-!
# The form of a text

There is more than one way to find where a text ends: to look for the first zero
of the bytes it is made of, to check the memory that was filled for it, and to
measure that memory from its address. This module says without any search what
stands before the first zero. There is exactly one such front, and every way
finds it.
-/
namespace Console

/-- No zero is in the front, and the bytes end after it or go on with a zero. -/
structure HasFront (bytes front : Bytes) : Prop where
  zero_not_mem : 0 ∉ front
  stops : bytes = front ∨ front ++ [0] <+: bytes

theorem hasFront_content (bytes : Bytes) : HasFront bytes (Text.ofBytes bytes).content := by
  refine ⟨(Text.ofBytes bytes).zero_not_mem, ?_⟩
  induction bytes with
  | nil => exact Or.inl rfl
  | cons byte rest ih =>
    simp only [Text.content_ofBytes, List.takeWhile_cons] at ih ⊢
    by_cases zero : byte = 0
    · right
      simp [zero]
    · simpa [zero, List.cons_prefix_cons] using ih

theorem HasFront.eq_content {bytes front : Bytes} (has : HasFront bytes front) :
    front = (Text.ofBytes bytes).content := by
  rcases has.stops with rfl | ⟨more, rfl⟩
  · exact (Text.content_ofBytes_of_zero_not_mem bytes has.zero_not_mem).symm
  · rw [Text.content_ofBytes, List.append_assoc,
      Text.takeWhile_append_of_zero_not_mem front _ has.zero_not_mem]
    simp

/-- Whatever has no zero and begins the bytes also begins their front. -/
theorem HasFront.longest {bytes front other : Bytes} (has : HasFront bytes front)
    (begins : other <+: bytes) (clean : 0 ∉ other) : other <+: front := by
  rcases has.stops with rfl | stops
  · exact begins
  · rcases Nat.lt_or_ge front.length other.length with longer | within
    · -- a longer one would hold the zero that the front stops at
      have room : (front ++ [0]).length ≤ other.length := by
        rw [List.length_append]
        exact longer
      have inside : front ++ [0] <+: other := List.prefix_of_prefix_length_le stops begins room
      exact absurd (inside.subset (by simp)) clean
    · have front_begins : front <+: bytes := (List.prefix_append front [0]).trans stops
      exact List.prefix_of_prefix_length_le begins front_begins within

theorem HasFront.append_of_mem {bytes front : Bytes} (has : HasFront bytes front) (more : Bytes)
    (zero : 0 ∈ bytes) : HasFront (bytes ++ more) front := by
  refine ⟨has.zero_not_mem, Or.inr ?_⟩
  rcases has.stops with rfl | stops
  · exact absurd zero has.zero_not_mem
  · exact stops.trans (List.prefix_append bytes more)

theorem HasFront.append_of_not_mem {bytes front : Bytes} (has : HasFront bytes front)
    (first : Bytes) (clean : 0 ∉ first) : HasFront (first ++ bytes) (first ++ front) := by
  constructor
  · intro member
    rcases List.mem_append.mp member with one | other
    · exact clean one
    · exact has.zero_not_mem other
  · rcases has.stops with rfl | stops
    · exact Or.inl rfl
    · right
      rw [List.append_assoc, List.prefix_append_right_inj]
      exact stops

namespace Text

/-- Two byte strings make one text if they agree up to their first zero or their end. -/
theorem ofBytes_eq_ofBytes_iff (first second : Bytes) :
    ofBytes first = ofBytes second ↔ ∃ front, HasFront first front ∧ HasFront second front := by
  constructor
  · intro same
    refine ⟨(ofBytes first).content, hasFront_content first, ?_⟩
    rw [same]
    exact hasFront_content second
  · rintro ⟨front, one, other⟩
    exact Text.ext (one.eq_content.symm.trans other.eq_content)

theorem filled_eq_terminated (bytes : Bytes) : filled bytes = (ofBytes bytes).terminated := by
  rw [filled, take_lengthBeforeZero]
  rfl

theorem ofTerminated?_terminated (text : Text) : ofTerminated? text.terminated = some text := by
  simp [ofTerminated?, terminated, text.zero_not_mem]

/-- In the memory of a text the only zero is at the end. -/
theorem getElem?_terminated_eq_zero_iff (text : Text) (index : Nat) :
    text.terminated[index]? = some 0 ↔ index + 1 = text.terminated.length := by
  simp only [terminated, List.length_append, List.length_singleton, Nat.add_right_cancel_iff]
  rcases Nat.lt_trichotomy index text.content.length with inside | last | beyond
  · rw [List.getElem?_append_left inside]
    constructor
    · intro zero
      exact absurd (List.mem_of_getElem? zero) text.zero_not_mem
    · omega
  · simp [last]
  · have outside : (text.content ++ [0]).length ≤ index := by
      rw [List.length_append]
      exact beyond
    rw [List.getElem?_eq_none outside]
    simp only [reduceCtorEq, false_iff]
    omega

theorem lengthBeforeZero_eq_length (bytes : Bytes) :
    lengthBeforeZero bytes = (ofBytes bytes).length := by
  have taken := congrArg List.length (take_lengthBeforeZero bytes)
  have within : lengthBeforeZero bytes ≤ bytes.length := List.findIdx_le_length
  rw [List.length_take, Nat.min_eq_left within] at taken
  exact taken

theorem eq_empty_iff_isEmpty (text : Text) : text = empty ↔ text.isEmpty = true := by
  simp [Text.ext_iff, isEmpty, length]

/-- A text made of any bytes is what stands before their first zero, however that
is found. Filling memory for it is never refused. It is the same text after it went through
memory, and two of them are equal just if their bytes agree up to the first zero. -/
theorem form_of_bytes (a b : Bytes) :
    let text := ofBytes a
    -- the memory that is filled ends in its only zero, so it is taken for a text
    (ofTerminated? (filled a) = some text ∧
      ∀ index, (filled a)[index]? = some 0 ↔ index + 1 = (filled a).length) ∧
    (text.content <+: a ∧ 0 ∉ text.content ∧
      ∀ front, front <+: a → 0 ∉ front → front <+: text.content) ∧
    (text.terminated = text.content ++ [0] ∧ text.terminated.count 0 = 1) ∧
    -- all lengths are one
    (text.length = text.content.length ∧ (ofMemory text.terminated).length = text.length ∧
      text.view.length = text.length ∧ lengthBeforeZero a = text.length ∧
      lengthBeforeZero text.terminated = text.length) ∧
    (ofBytes text.content = text ∧ text.roundTrip = text) ∧
    (text = ofBytes b ↔ ∃ front, HasFront a front ∧ HasFront b front) ∧
    ((text = empty ↔ text.isEmpty = true) ∧ (text = empty ↔ a = [] ∨ a.head? = some 0)) ∧
    -- what follows a zero does not count, and what precedes it is kept
    (0 ∈ a → ofBytes (a ++ b) = text) ∧
    (0 ∉ a → (ofBytes (a ++ b)).content = a ++ (ofBytes b).content) := by
  intro text
  have front := hasFront_content a
  have filling := filled_eq_terminated a
  have memory := ofMemory_terminated text
  refine ⟨⟨?_, ?_⟩, ⟨List.takeWhile_prefix _, text.zero_not_mem, ?_⟩, ⟨rfl, ?_⟩,
    ⟨rfl, congrArg length memory, congrArg length memory, lengthBeforeZero_eq_length a,
      lengthBeforeZero_terminated text⟩,
    ⟨ofBytes_content text, memory⟩, ofBytes_eq_ofBytes_iff a b, ⟨eq_empty_iff_isEmpty text, ?_⟩,
    ?_, ?_⟩
  · rw [filling]
    exact ofTerminated?_terminated text
  · intro index
    rw [filling]
    exact getElem?_terminated_eq_zero_iff text index
  · intro other begins clean
    exact front.longest begins clean
  · simp [terminated, List.count_eq_zero_of_not_mem text.zero_not_mem]
  · rw [ofBytes_eq_empty_iff]
    cases a <;> simp
  · intro zero
    exact Text.ext (front.append_of_mem b zero).eq_content.symm
  · intro clean
    exact ((hasFront_content b).append_of_not_mem a clean).eq_content.symm

/-- A zero inside and a zero at the end. -/
def zeroTwice : Bytes := [97, 0, 98, 0]

theorem form_of_zeroTwice :
    0 ∈ zeroTwice ∧ ofBytes (zeroTwice ++ [99]) = ofBytes zeroTwice ∧
      (0 : UInt8) ∉ [97, 98] ∧ (ofBytes ([97, 98] ++ zeroTwice)).content = [97, 98, 97] ∧
      [97] <+: (ofBytes zeroTwice).content :=
  ⟨by decide, (form_of_bytes zeroTwice [99]).2.2.2.2.2.2.2.1 (by decide), by decide,
    (form_of_bytes [97, 98] zeroTwice).2.2.2.2.2.2.2.2 (by decide),
    (form_of_bytes zeroTwice []).2.1.2.2 [97] (by decide) (by decide)⟩

end Text
end Console
