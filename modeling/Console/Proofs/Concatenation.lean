import Console.Proofs.CallRefinement

/-!
# Lines of joined input

The lines of two inputs joined are the lines of the one and then those of the
other, if no line is left open at the seam. One byte may stand between them: a
line feed after a carriage return at the seam belongs to it and ends no line of
its own. So a line that has its end is the same whatever comes after it.
-/
namespace Console

namespace Lines

/-- The last line that was begun has its end. -/
def Closed (bytes : Bytes) : Prop := ∀ last ∈ bytes.getLast?, endsLine last = true

/-- What is left of the next bytes when bytes before them end with a line. -/
def remainder (bytes next : Bytes) : Bytes :=
  if bytes.getLast? = some carriageReturn then dropLineFeed next else next

theorem closed_iff (bytes : Bytes) :
    Closed bytes ↔ bytes = [] ∨ bytes.getLast? = some lineFeed ∨
      bytes.getLast? = some carriageReturn := by
  cases last : bytes.getLast? with
  | none => simp [Closed, List.getLast?_eq_none_iff.mp last]
  | some byte =>
    have begun : bytes ≠ [] := by
      rintro rfl
      simp at last
    simp [Closed, last, begun, endsLine]

private theorem getLast?_cons_of_ne_nil (byte : UInt8) (rest : Bytes) (more : rest ≠ []) :
    (byte :: rest).getLast? = rest.getLast? := by
  obtain ⟨next, later, rfl⟩ := List.exists_cons_of_ne_nil more
  exact List.getLast?_cons_cons

private theorem closed_of_cons (byte : UInt8) (rest : Bytes) (closed : Closed (byte :: rest)) :
    Closed rest := by
  intro last member
  have more : rest ≠ [] := by
    rintro rfl
    simp at member
  rw [← getLast?_cons_of_ne_nil byte rest more] at member
  exact closed last member

private theorem closed_dropLineFeed (bytes : Bytes) (closed : Closed bytes) :
    Closed (dropLineFeed bytes) := by
  cases bytes with
  | nil => exact closed
  | cons byte rest =>
    rw [dropLineFeed]
    split
    · exact closed_of_cons byte rest closed
    · exact closed

/-- Only the last byte before the seam matters. -/
private theorem remainder_cons (byte : UInt8) (rest next : Bytes)
    (other : rest = [] → byte ≠ carriageReturn) :
    remainder (byte :: rest) next = remainder rest next := by
  by_cases more : rest = []
  · simp [more, remainder, other more]
  · rw [remainder, remainder, getLast?_cons_of_ne_nil byte rest more]

private theorem remainder_dropLineFeed (bytes next : Bytes) :
    remainder (dropLineFeed bytes) next = remainder bytes next := by
  cases bytes with
  | nil => rfl
  | cons byte rest =>
    rw [dropLineFeed]
    split
    next fed =>
      rw [remainder_cons byte rest next]
      intro _
      rw [fed]
      decide
    next => rfl

private theorem dropLineFeed_append (bytes next : Bytes) (more : bytes ≠ []) :
    dropLineFeed (bytes ++ next) = dropLineFeed bytes ++ next := by
  obtain ⟨byte, rest, rfl⟩ := List.exists_cons_of_ne_nil more
  simp only [List.cons_append, dropLineFeed]
  split <;> rfl

/-- A split goes on after the seam as if it began there. -/
theorem splitFrom_of_closed (current bytes next : Bytes) (closed : Closed bytes)
    (begun : bytes = [] → current = []) :
    splitFrom current (bytes ++ next) =
      splitFrom current bytes ++ splitFrom [] (remainder bytes next) := by
  -- the induction is on the split of the bytes before the seam, with any line begun
  fun_induction splitFrom current bytes with
  | case1 current blank =>
    rw [List.isEmpty_iff.mp blank]
    rfl
  | case2 current unfinished =>
    simp [begun rfl] at unfinished
  | case3 current rest ih =>
    rw [remainder_cons _ rest next fun _ => by decide, List.cons_append, splitFrom, if_pos rfl,
      ih (closed_of_cons _ rest closed) fun _ => rfl]
    rfl
  | case4 current rest _ ih =>
    rw [List.cons_append, splitFrom, if_neg (by decide), if_pos rfl]
    by_cases last : rest = []
    · -- the look-ahead falls on what comes after the seam
      simp [last, remainder, dropLineFeed, splitFrom]
    · rw [remainder_cons _ rest next fun none => absurd none last,
        ← remainder_dropLineFeed, dropLineFeed_append rest next last,
        ih (closed_dropLineFeed rest (closed_of_cons _ rest closed)) fun _ => rfl]
      rfl
  | case5 current byte rest other_feed other_return ih =>
    -- the line goes on, so its end is among the rest
    have more : rest ≠ [] := by
      rintro rfl
      have ends := closed byte rfl
      simp [endsLine, other_feed, other_return] at ends
    rw [remainder_cons byte rest next fun none => absurd none more, List.cons_append, splitFrom,
      if_neg other_feed, if_neg other_return, ih (closed_of_cons byte rest closed)
      fun none => absurd none more]

/-- Joined at a seam where no line is open, lines are joined. -/
theorem split_of_closed (bytes next : Bytes) (closed : Closed bytes) :
    split (bytes ++ next) = split bytes ++ split (remainder bytes next) := by
  rw [split, splitFrom_of_closed [] bytes next closed fun _ => rfl, List.map_append]
  rfl

end Lines

/-- Sources that deliver bytes whose splits are joined give lines that are joined. -/
private theorem lines_of_split {front back whole : Source} {bytes next input : Bytes}
    (ofFront : front.Delivers bytes) (ofBack : back.Delivers next) (ofWhole : whole.Delivers input)
    (joined : Lines.split input = Lines.split bytes ++ Lines.split next) :
    whole.lines.1 = front.lines.1 ++ back.lines.1 := by
  have one := (front.lines_of_steady ofFront.isSteady).1
  have other := (back.lines_of_steady ofBack.isSteady).1
  have all := (whole.lines_of_steady ofWhole.isSteady).1
  rw [ofFront.unread_eq] at one
  rw [ofBack.unread_eq] at other
  rw [ofWhole.unread_eq, joined, ← one, ← other, ← List.map_append] at all
  exact (List.map_inj_right fun _ _ => Text.ext).mp all

/-- However three inputs are delivered of which one is the other two joined, reading lines until
there is none gives the lines of the first and then those of the second, if the first leaves no
line open. A line feed after a carriage return at the seam is passed over. So the lines of the
first input stay what they are whatever follows. -/
theorem Source.lines_of_joined (s e : Bytes) (front whole : Source) (ofFront : front.Delivers s)
    (ofWhole : whole.Delivers (s ++ e)) :
    (∀ back : Source, back.Delivers e →
      (s = [] ∨ s.getLast? = some lineFeed ∨
        s.getLast? = some carriageReturn ∧ e.head? ≠ some lineFeed) →
      whole.lines.1 = front.lines.1 ++ back.lines.1) ∧
    (∀ (later : Bytes) (back : Source), back.Delivers later →
      s.getLast? = some carriageReturn → e = lineFeed :: later →
      whole.lines.1 = front.lines.1 ++ back.lines.1) ∧
    (s = [] ∨ s.getLast? = some lineFeed ∨ s.getLast? = some carriageReturn →
      front.lines.1 <+: whole.lines.1) := by
  refine ⟨?_, ?_, ?_⟩
  · intro back ofBack seam
    have closed : Lines.Closed s := by
      rw [Lines.closed_iff]
      exact seam.imp id (.imp id And.left)
    have kept : Lines.remainder s e = e := by
      rcases seam with rfl | fed | ⟨returned, other⟩
      · rfl
      · simp [Lines.remainder, fed, lineFeed, carriageReturn]
      · rw [Lines.remainder, if_pos returned, Lines.dropLineFeed_of_head e other]
    apply lines_of_split ofFront ofBack ofWhole
    rw [Lines.split_of_closed s e closed, kept]
  · intro later back ofBack returned follows
    have closed : Lines.Closed s := (Lines.closed_iff s).mpr (.inr (.inr returned))
    have passed : Lines.remainder s e = later := by
      simp [Lines.remainder, returned, follows, Lines.dropLineFeed]
    apply lines_of_split ofFront ofBack ofWhole
    rw [Lines.split_of_closed s e closed, passed]
  · intro seam
    have joined := Lines.split_of_closed s e ((Lines.closed_iff s).mpr seam)
    -- any source will do for what is left
    rw [lines_of_split ofFront (Source.delivers_ofBytes (Lines.remainder s e)) ofWhole joined]
    exact List.prefix_append _ _

/-- A line with a zero in it, up to the first byte of its end. -/
def cutInPair : Bytes := [97, 0, 98, 13]

/-- The line with all of its end and the next one, in pieces that are not cut there. -/
def cutInPairJoined : Source where
  window := some ⟨3, by decide⟩
  pending := [.data [97, 0], .failure ⟨.interrupted, "again"⟩, .data [98, 13, 10], .data [99]]

theorem Source.lines_of_cutInPair :
    (Source.ofBytes cutInPair).Delivers cutInPair ∧
      cutInPairJoined.Delivers (cutInPair ++ [10, 99]) ∧
      cutInPair.getLast? = some carriageReturn ∧
      cutInPairJoined.lines.1 = [Text.ofBytes [97], Text.ofBytes [99]] ∧
      cutInPairJoined.lines.1 =
        (Source.ofBytes cutInPair).lines.1 ++ (Source.ofBytes [99]).lines.1 := by
  have ofFront := delivers_ofBytes cutInPair
  have ofWhole : cutInPairJoined.Delivers (cutInPair ++ [10, 99]) := ⟨by decide, by decide⟩
  have joined := (lines_of_joined cutInPair [10, 99] _ _ ofFront ofWhole).2.1
  exact ⟨ofFront, ofWhole, by decide, by decide +kernel,
    joined [99] _ (delivers_ofBytes [99]) (by decide) (by decide)⟩

end Console
