import Console.Notice
import Console.Scratch
import Console.Source

/-!
# Reading lines and characters

A read takes a line or a single byte off a source and makes it a text. It
gives no text only at the end of input, so an empty text is a blank line or a
zero byte. A fault ends a read as the end of input does, after a notice.

A line ends at a line feed, at a carriage return, or at both in that order.
To tell the last two apart the byte after a carriage return has to be looked
at, and it stays unread unless it completes the pair.
-/
namespace Console

inductive Extent where
  | line
  | character
deriving DecidableEq

/-- What a read came to: a text or the end of input, the notices on the way,
and the source that is left. -/
structure Reading where
  text : Option Text
  log : List Notice
  source : Source

namespace Reading

/-- Why no more bytes are gathered for a line. -/
inductive Ending where
  | endOfInput
  | failed (fault : Fault)
  | lineFeed
  | carriageReturn
deriving DecidableEq

/-- The byte that ended a line, if one did. -/
def Ending.bytes : Ending → Bytes
  | .endOfInput | .failed _ => []
  | .lineFeed => [Console.lineFeed]
  | .carriageReturn => [Console.carriageReturn]

structure Gathered where
  scratch : Scratch
  ending : Ending
  source : Source

/-- Gathers the bytes of a line and consumes the byte that ended it. -/
def gather (source : Source) (scratch : Scratch) : Gathered :=
  match _awaited : source.await with
  | (.error fault, after) => { scratch, ending := .failed fault, source := after }
  | (.ok [], after) => { scratch, ending := .endOfInput, source := after }
  | (.ok (first :: others), after) =>
    let shown := first :: others
    let line := shown.takeWhile (!endsLine ·)
    match shown.dropWhile (!endsLine ·) with
    -- no end in sight: all of it belongs to the line
    | [] => gather (after.consume shown.length) (scratch.extend shown)
    | last :: _ =>
      { scratch := scratch.extend line
        ending := if last = Console.carriageReturn then .carriageReturn else .lineFeed
        source := after.consume (line.length + 1) }
termination_by source.unread.length
decreasing_by
  exact Source.unread_consume_lt source _ after _awaited (List.cons_ne_nil _ _)

/-- Consumes a line feed if it is the next byte. -/
def skipLineFeed (source : Source) : List Notice × Source :=
  match source.await with
  | (.error fault, after) => ([.lookAheadFailed fault], after)
  | (.ok [], after) => ([], after)
  | (.ok (first :: _), after) => ([], if first = Console.lineFeed then after.consume 1 else after)

/-- A line that has its end; it may be blank. -/
def complete (scratch : Scratch) (log : List Notice) (source : Source) : Reading where
  text := some scratch.text
  log := log ++ [.lineRead scratch.size scratch.capacity]
  source := source

/-- A line cut short by the end of input is still a line, unless it had not
begun. -/
def conclude (scratch : Scratch) (log : List Notice) (source : Source) : Reading :=
  if scratch.isEmpty then { text := none, log := log ++ [.noLine], source }
  else complete scratch log source

@[simp]
theorem source_conclude (scratch : Scratch) (log : List Notice) (source : Source) :
    (conclude scratch log source).source = source := by
  unfold conclude
  split <;> rfl

def line (source : Source) : Reading :=
  let { scratch, ending, source } := gather source {}
  match ending with
  | .endOfInput => conclude scratch [] source
  | .failed fault => conclude scratch [.lineFailed fault] source
  | .lineFeed => complete scratch [] source
  | .carriageReturn =>
    -- this line is complete, but a line feed that follows must not end another one
    let (log, source) := skipLineFeed source
    complete scratch log source

def character (source : Source) : Reading :=
  match source.await with
  | (.error fault, after) => { text := none, log := [.characterFailed fault], source := after }
  | (.ok [], after) => { text := none, log := [.noCharacter], source := after }
  | (.ok (byte :: _), after) =>
    { text := some (Text.ofBytes [byte])
      log := [.characterRead byte]
      source := after.consume 1 }

private theorem ending_bytes (byte : UInt8) (ends : endsLine byte = true) :
    (if byte = Console.carriageReturn then Ending.carriageReturn else .lineFeed).bytes = [byte] := by
  split
  next same => rw [same]; rfl
  next other =>
    simp only [endsLine, Bool.or_eq_true, beq_iff_eq, other, or_false] at ends
    rw [ends]
    rfl

theorem gather_append_unread (source : Source) (scratch : Scratch) :
    (gather source scratch).scratch.bytes.toList ++ (gather source scratch).ending.bytes ++
      (gather source scratch).source.unread = scratch.bytes.toList ++ source.unread := by
  fun_induction gather source scratch with
  | case1 source scratch fault after awaited =>
    have same := Source.unread_await source
    rw [awaited] at same
    simp [Ending.bytes, ← same]
  | case2 source scratch after awaited =>
    have same := Source.unread_await source
    rw [awaited] at same
    simp [Ending.bytes, ← same]
  | case3 source scratch first others after awaited shown all ih =>
    have same := Source.unread_eq_append_consume source shown [] after (by simpa using awaited)
    simp [ih, same]
  | case4 source scratch first others after awaited shown line last rest ended =>
    -- the line, the byte that ends it and the rest are what was shown
    have split : shown = (line ++ [last]) ++ rest := by
      have parts := List.takeWhile_append_dropWhile (p := (!endsLine ·)) (l := shown)
      simp [← ended, line, parts]
    have same := Source.unread_eq_append_consume source (line ++ [last]) rest after
      (split ▸ awaited)
    have ends : endsLine last = true := by
      have stopped := List.head?_dropWhile_not (!endsLine ·) shown
      simpa [ended] using stopped
    simp [ending_bytes last ends, same]

theorem unread_skipLineFeed_le (source : Source) :
    (skipLineFeed source).2.unread.length ≤ source.unread.length := by
  have same := Source.unread_await source
  unfold skipLineFeed
  split
  next fault after awaited =>
    rw [awaited] at same
    simp [← same]
  next after awaited =>
    rw [awaited] at same
    simp [← same]
  next first others after awaited =>
    rw [awaited] at same
    have taken := Source.unread_eq_append_consume source [first] others after awaited
    split
    · simp only [List.length_singleton] at taken
      simp [taken]
    · simp [← same]

theorem unread_character_lt (source : Source) (text : Text)
    (given : (character source).text = some text) :
    (character source).source.unread.length < source.unread.length := by
  unfold character at *
  split at given
  next => simp at given
  next => simp at given
  next byte others after awaited =>
    have taken := Source.unread_eq_append_consume source [byte] others after awaited
    simp only [taken]
    simp

theorem unread_line_lt (source : Source) (text : Text)
    (given : (line source).text = some text) :
    (line source).source.unread.length < source.unread.length := by
  have gathered := congrArg List.length (gather_append_unread source {})
  unfold line at *
  revert gathered given
  generalize gather source {} = result
  obtain ⟨scratch, ending, after⟩ := result
  intro given gathered
  cases ending with
  | endOfInput | failed fault =>
    -- without an end to take, it is the bytes gathered that make it shorter
    have begun : scratch.bytes.size ≠ 0 := by
      intro blank
      simp [conclude, Scratch.isEmpty, Array.eq_empty_of_size_eq_zero blank] at given
    simp only [source_conclude]
    simp [Ending.bytes] at gathered
    omega
  | lineFeed =>
    simp only [complete]
    simp [Ending.bytes] at gathered
    omega
  | carriageReturn =>
    have skipped := unread_skipLineFeed_le after
    simp only [complete]
    simp [Ending.bytes] at gathered
    omega

end Reading

def Source.read (source : Source) : Extent → Reading
  | .line => Reading.line source
  | .character => Reading.character source

theorem Source.unread_read_lt (source : Source) (extent : Extent) (text : Text)
    (given : (source.read extent).text = some text) :
    (source.read extent).source.unread.length < source.unread.length := by
  cases extent with
  | line => exact Reading.unread_line_lt source text given
  | character => exact Reading.unread_character_lt source text given

end Console
