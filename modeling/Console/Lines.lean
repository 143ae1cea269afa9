import Console.Reading

/-!
# The lines of a byte string

Two ways to the same lines. A source can be asked for lines until it gives
none, or the bytes can be split one at a time without any source. The second
way knows nothing of deliveries, windows or look-ahead, so it says plainly
which lines the first one has to give.
-/
namespace Console

/-- Asks for lines until there is none, and gives them with the source left. -/
def Source.lines (source : Source) : List Text × Source :=
  let reading := source.read .line
  match _given : reading.text with
  | none => ([], reading.source)
  | some text =>
    let (texts, after) := reading.source.lines
    (text :: texts, after)
termination_by source.unread.length
decreasing_by exact Source.unread_read_lt source .line text _given

namespace Lines

/-- The rest of the input after a carriage return: a line feed belongs to it. -/
def dropLineFeed : Bytes → Bytes
  | [] => []
  | byte :: rest => if byte = lineFeed then rest else byte :: rest

theorem length_dropLineFeed_le (input : Bytes) : (dropLineFeed input).length ≤ input.length := by
  cases input with
  | nil => exact Nat.le_refl _
  | cons byte rest =>
    simp only [dropLineFeed]
    split <;> simp

theorem dropLineFeed_of_head (input : Bytes) (other : input.head? ≠ some lineFeed) :
    dropLineFeed input = input := by
  cases input with
  | nil => rfl
  | cons byte rest =>
    rw [dropLineFeed, if_neg]
    simpa using other

/-- Splits the rest of the input, of which `current` is the line begun. A last
line without an end counts if it is not empty. -/
def splitFrom (current : Bytes) : Bytes → List Bytes
  | [] => if current.isEmpty then [] else [current]
  | byte :: rest =>
    if byte = lineFeed then current :: splitFrom [] rest
    else if byte = carriageReturn then current :: splitFrom [] (dropLineFeed rest)
    else splitFrom (current ++ [byte]) rest
termination_by input => input.length
decreasing_by
  all_goals
    have shorter := length_dropLineFeed_le rest
    simp only [List.length_cons]
    omega

/-- The lines of a byte string, each up to its first zero. -/
def split (input : Bytes) : List Bytes :=
  (splitFrom [] input).map fun line => line.take (lengthBeforeZero line)

end Lines
end Console
