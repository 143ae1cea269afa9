import Console.Proofs.Signal
import Mathlib.Data.List.TakeWhile

/-!
# Reads over signals

A passage is what a read comes to for an observer of signals: the text, the
notices, and the signals that are left. Passages are computed from signals
alone, without deliveries, windows or requests, and every read of a source has
the passage computed from the signals of that source.

The one thing signals do not tell is the capacity of a line's buffer. It is
handed to the passage and looked into elsewhere.
-/
namespace Console

namespace Signal

/-- Whether a line goes on at a signal. -/
def continues : Signal → Bool
  | .byte value => !endsLine value
  | .stop _ => false

/-- The bytes of the line that signals begin with. -/
def content (signals : List Signal) : Bytes := bytes (signals.takeWhile continues)

/-- What comes after the bytes of that line. -/
def beyond (signals : List Signal) : List Signal := signals.dropWhile continues

/-- How a line ends at what comes after its bytes, and what is left then. -/
def ending : List Signal → Reading.Ending × List Signal
  | [] => (.endOfInput, [])
  | .stop none :: later => (.endOfInput, later)
  | .stop (some fault) :: later => (.failed fault, later)
  | .byte value :: later =>
    (if value = carriageReturn then .carriageReturn else .lineFeed, later)

/-- The look at what follows a carriage return: a stop or a line feed is taken. -/
def lookAhead : List Signal → List Notice × List Signal
  | [] => ([], [])
  | .stop none :: later => ([], later)
  | .stop (some fault) :: later => ([.lookAheadFailed fault], later)
  | .byte value :: later => ([], if value = lineFeed then later else .byte value :: later)

private theorem continues_ofBytes (line : Bytes) (isOpen : ∀ value ∈ line, endsLine value = false) :
    ∀ signal ∈ ofBytes line, continues signal = true := by
  intro signal member
  obtain ⟨value, among, rfl⟩ := List.mem_map.mp member
  simp [continues, isOpen value among]

theorem content_append (line : Bytes) (isOpen : ∀ value ∈ line, endsLine value = false)
    (later : List Signal) : content (ofBytes line ++ later) = line ++ content later := by
  rw [content, List.takeWhile_append_of_pos (continues_ofBytes line isOpen)]
  simp [content]

theorem beyond_append (line : Bytes) (isOpen : ∀ value ∈ line, endsLine value = false)
    (later : List Signal) : beyond (ofBytes line ++ later) = beyond later :=
  List.dropWhile_append_of_pos (continues_ofBytes line isOpen)

@[simp]
theorem content_nil : content [] = [] := rfl

@[simp]
theorem beyond_nil : beyond [] = [] := rfl

@[simp]
theorem content_stop (fault : Option Fault) (later : List Signal) :
    content (.stop fault :: later) = [] := rfl

@[simp]
theorem beyond_stop (fault : Option Fault) (later : List Signal) :
    beyond (.stop fault :: later) = .stop fault :: later := rfl

/-- The bytes of a line and what comes after them are all there is. -/
theorem content_append_beyond (signals : List Signal) :
    ofBytes (content signals) ++ beyond signals = signals := by
  simp only [content, beyond]
  induction signals with
  | nil => rfl
  | cons signal later ih =>
    by_cases goesOn : signal.continues = true
    · -- a line goes on at bytes only, so none is lost when content is taken for bytes
      cases signal with
      | byte value =>
        simp only [List.takeWhile_cons, List.dropWhile_cons, goesOn, if_true, bytes_byte,
          ofBytes_cons, List.cons_append, ih]
      | stop fault => simp [continues] at goesOn
    · simp [goesOn]

theorem endsLine_of_mem_content (signals : List Signal) (value : UInt8)
    (member : value ∈ content signals) : endsLine value = false := by
  obtain ⟨signal, among, same⟩ := List.mem_filterMap.mp member
  have goesOn := List.mem_takeWhile_imp among
  cases signal with
  | byte other =>
    cases same
    simpa [continues] using goesOn
  | stop fault => simp [continues] at goesOn

theorem continues_head_beyond (signals : List Signal) (signal : Signal) (later : List Signal)
    (next : beyond signals = signal :: later) : signal.continues = false := by
  have stopped := List.head?_dropWhile_not continues signals
  rw [beyond] at next
  simpa [next] using stopped

theorem content_ended (value : UInt8) (ends : endsLine value = true) (later : List Signal) :
    content (.byte value :: later) = [] := by
  simp [content, continues, ends]

theorem beyond_ended (value : UInt8) (ends : endsLine value = true) (later : List Signal) :
    beyond (.byte value :: later) = .byte value :: later := by
  simp [beyond, continues, ends]

theorem lookAhead_cases (signals : List Signal) :
    -- no line feed comes, and nothing is taken
    ((bytes signals).head? ≠ some lineFeed ∧ lookAhead signals = ([], signals)) ∨
    -- a stop is taken
    (∃ fault later, signals = .stop fault :: later ∧
      lookAhead signals = (fault.toList.map .lookAheadFailed, later)) ∨
    -- a line feed is taken
    (∃ later, signals = .byte lineFeed :: later ∧ lookAhead signals = ([], later)) := by
  cases signals with
  | nil => exact Or.inl ⟨by simp, rfl⟩
  | cons signal later =>
    cases signal with
    | stop fault =>
      right; left
      refine ⟨fault, later, rfl, ?_⟩
      cases fault <;> rfl
    | byte value =>
      by_cases fed : value = lineFeed
      · right; right
        subst fed
        exact ⟨later, rfl, rfl⟩
      · left
        exact ⟨by simpa using fed, by simp [lookAhead, fed]⟩

end Signal

namespace Reading

/-- Gathering takes the bytes of the line, and ends as the line does. -/
theorem gather_signals (source : Source) (scratch : Scratch) :
    (gather source scratch).scratch.bytes.toList =
        scratch.bytes.toList ++ Signal.content source.signals ∧
      ((gather source scratch).ending, (gather source scratch).source.signals) =
        Signal.ending (Signal.beyond source.signals) := by
  fun_induction gather source scratch with
  | case1 source scratch fault after awaited =>
    -- a stop is no content and the line ends at it
    rw [Source.signals_of_await_error source fault after awaited]
    simp [Signal.ending]
  | case2 source scratch after awaited =>
    rcases Source.signals_of_await_nil source after awaited with stopped | ⟨finished, still⟩
    · simp [stopped, Signal.ending]
    · simp [finished, still, Signal.ending]
  | case3 source scratch first others after awaited shown all ih =>
    -- the whole of what is shown belongs to the line, and the rest is gathered by induction
    have isOpen : ∀ value ∈ shown, endsLine value = false := by
      simpa using List.dropWhile_eq_nil_iff.mp all
    have split := Source.signals_of_await_ok source shown [] after (by simpa using awaited)
      (by simp [shown])
    rw [split, Signal.content_append shown isOpen, Signal.beyond_append shown isOpen]
    refine ⟨?_, ih.2⟩
    rw [ih.1, Scratch.toList_bytes_extend, List.append_assoc]
  | case4 source scratch first others after awaited shown line last rest ended =>
    -- the line ends inside of what is shown, and the byte that ends it is consumed too
    have whole : shown = (line ++ [last]) ++ rest := by
      have parts := List.takeWhile_append_dropWhile (p := (!endsLine ·)) (l := shown)
      simp [← ended, line, parts]
    have isOpen : ∀ value ∈ line, endsLine value = false := by
      intro value member
      simpa using List.mem_takeWhile_imp member
    have ends : endsLine last = true := by
      have stopped := List.head?_dropWhile_not (!endsLine ·) shown
      simpa [ended] using stopped
    have split := Source.signals_of_await_ok source (line ++ [last]) rest after
      (whole ▸ awaited) (by simp)
    rw [split, Signal.ofBytes_append, List.append_assoc, Signal.content_append line isOpen,
      Signal.beyond_append line isOpen]
    simp [Signal.content_ended last ends, Signal.beyond_ended last ends, Signal.ending]

theorem skipLineFeed_signals (source : Source) :
    ((skipLineFeed source).1, (skipLineFeed source).2.signals) =
      Signal.lookAhead source.signals := by
  unfold skipLineFeed
  split
  next fault after awaited =>
    rw [Source.signals_of_await_error source fault after awaited]
    rfl
  next after awaited =>
    rcases Source.signals_of_await_nil source after awaited with stopped | ⟨finished, still⟩
    · rw [stopped]
      rfl
    · rw [finished, still]
      rfl
  next first others after awaited =>
    -- the byte is looked at before it is known whether to consume it
    have looked := Source.signals_of_await_ok source [] (first :: others) after awaited (by simp)
    have consumed := Source.signals_of_await_ok source [first] others after awaited (by simp)
    simp only [Signal.ofBytes_cons, Signal.ofBytes_nil, List.cons_append, List.nil_append,
      List.length_singleton] at consumed
    rw [consumed]
    split
    next feed => simp [Signal.lookAhead, feed]
    next other =>
      have kept : after.signals = source.signals := by simpa [Source.consume] using looked.symm
      simp [Signal.lookAhead, other, kept, consumed]

end Reading

/-- What a read comes to, told in signals. -/
structure Passage where
  text : Option Text
  log : List Notice
  rest : List Signal
deriving DecidableEq

namespace Passage

def ofReading (reading : Reading) : Passage where
  text := reading.text
  log := reading.log
  rest := reading.source.signals

/-- A line that has its end. -/
def complete (content : Bytes) (capacity : Nat) (log : List Notice) (rest : List Signal) :
    Passage where
  text := some (Text.ofBytes content)
  log := log ++ [.lineRead content.length capacity]
  rest := rest

/-- A line without an end is one only if it has begun. -/
def conclude (content : Bytes) (capacity : Nat) (log : List Notice) (rest : List Signal) :
    Passage :=
  if content.isEmpty then { text := none, log := log ++ [.noLine], rest }
  else complete content capacity log rest

def line (capacity : Nat) (signals : List Signal) : Passage :=
  let content := Signal.content signals
  match Signal.ending (Signal.beyond signals) with
  | (.endOfInput, rest) => conclude content capacity [] rest
  | (.failed fault, rest) => conclude content capacity [.lineFailed fault] rest
  | (.lineFeed, rest) => complete content capacity [] rest
  | (.carriageReturn, rest) =>
    complete content capacity (Signal.lookAhead rest).1 (Signal.lookAhead rest).2

def character : List Signal → Passage
  | [] => { text := none, log := [.noCharacter], rest := [] }
  | .stop none :: later => { text := none, log := [.noCharacter], rest := later }
  | .stop (some fault) :: later => { text := none, log := [.characterFailed fault], rest := later }
  | .byte value :: later =>
    { text := some (Text.ofBytes [value]), log := [.characterRead value], rest := later }

/-- The passage of a read; only that of a line depends on the capacity. -/
def read (capacity : Nat) (signals : List Signal) : Extent → Passage
  | .line => line capacity signals
  | .character => character signals

/-- How a line can come to pass. Only in the last case is there more to look at. -/
theorem line_cases (capacity : Nat) (signals : List Signal) :
    -- input is over
    (signals = Signal.ofBytes (Signal.content signals) ∧
      line capacity signals = conclude (Signal.content signals) capacity [] []) ∨
    -- a stop is taken
    (∃ fault later, signals = Signal.ofBytes (Signal.content signals) ++ .stop fault :: later ∧
      line capacity signals =
        conclude (Signal.content signals) capacity (fault.toList.map .lineFailed) later) ∨
    -- a line feed is taken
    (∃ later, signals = Signal.ofBytes (Signal.content signals ++ [lineFeed]) ++ later ∧
      line capacity signals = complete (Signal.content signals) capacity [] later) ∨
    -- a carriage return is taken
    (∃ later, signals = Signal.ofBytes (Signal.content signals ++ [carriageReturn]) ++ later ∧
      line capacity signals = complete (Signal.content signals) capacity
        (Signal.lookAhead later).1 (Signal.lookAhead later).2) := by
  have whole := Signal.content_append_beyond signals
  unfold line
  cases next : Signal.beyond signals with
  | nil =>
    left
    rw [next, List.append_nil] at whole
    exact ⟨whole.symm, rfl⟩
  | cons signal later =>
    right
    rw [next] at whole
    cases signal with
    | stop fault =>
      left
      refine ⟨fault, later, whole.symm, ?_⟩
      cases fault <;> rfl
    | byte value =>
      right
      have ends : endsLine value = true := by
        simpa [Signal.continues] using Signal.continues_head_beyond signals _ later next
      by_cases returned : value = carriageReturn
      · right
        subst returned
        exact ⟨later, by simpa using whole.symm, rfl⟩
      · left
        have fed : value = lineFeed := by simpa [endsLine, returned] using ends
        subst fed
        exact ⟨later, by simpa using whole.symm, rfl⟩

theorem character_cases (signals : List Signal) :
    -- input is over
    (signals = [] ∧ character signals = { text := none, log := [.noCharacter], rest := [] }) ∨
    -- a stop is taken
    (∃ fault later, signals = .stop fault :: later ∧ character signals =
      { text := none, log := [fault.elim .noCharacter .characterFailed], rest := later }) ∨
    -- a byte is taken
    (∃ value later, signals = .byte value :: later ∧ character signals =
      { text := some (Text.ofBytes [value]), log := [.characterRead value], rest := later }) := by
  cases signals with
  | nil => exact Or.inl ⟨rfl, rfl⟩
  | cons signal later =>
    right
    cases signal with
    | stop fault =>
      left
      refine ⟨fault, later, rfl, ?_⟩
      cases fault <;> rfl
    | byte value => exact Or.inr ⟨value, later, rfl, rfl⟩

@[simp]
theorem rest_conclude (content : Bytes) (capacity : Nat) (log : List Notice)
    (rest : List Signal) : (conclude content capacity log rest).rest = rest := by
  unfold conclude
  split <;> rfl

private theorem lookAhead_isSuffix (signals : List Signal) :
    (Signal.lookAhead signals).2 <:+ signals := by
  rcases Signal.lookAhead_cases signals with
    ⟨-, looked⟩ | ⟨fault, later, rfl, looked⟩ | ⟨later, rfl, looked⟩
  · simp [looked]
  · rw [looked]
    exact List.suffix_cons _ _
  · rw [looked]
    exact List.suffix_cons _ _

/-- What is left of signals after a read is the end of them. -/
theorem rest_read_isSuffix (capacity : Nat) (signals : List Signal) (extent : Extent) :
    (read capacity signals extent).rest <:+ signals := by
  cases extent with
  | line =>
    simp only [read]
    rcases line_cases capacity signals with
      ⟨-, passed⟩ | ⟨fault, later, whole, passed⟩ | ⟨later, whole, passed⟩ | ⟨later, whole, passed⟩
    · simp [passed]
    · rw [passed, rest_conclude]
      exact ⟨Signal.ofBytes (Signal.content signals) ++ [.stop fault], by simp [← whole]⟩
    · rw [passed]
      exact ⟨_, whole.symm⟩
    · rw [passed]
      exact (lookAhead_isSuffix later).trans ⟨_, whole.symm⟩
  | character =>
    simp only [read]
    rcases character_cases signals with
      ⟨rfl, passed⟩ | ⟨fault, later, rfl, passed⟩ | ⟨value, later, rfl, passed⟩
    · simp [passed]
    · rw [passed]
      exact List.suffix_cons _ _
    · rw [passed]
      exact List.suffix_cons _ _

private theorem ofReading_complete (scratch : Scratch) (log : List Notice) (source : Source) :
    ofReading (Reading.complete scratch log source) =
      complete scratch.bytes.toList scratch.capacity log source.signals := by
  simp [ofReading, Reading.complete, complete, Scratch.text, Scratch.size]

private theorem ofReading_conclude (scratch : Scratch) (log : List Notice) (source : Source) :
    ofReading (Reading.conclude scratch log source) =
      conclude scratch.bytes.toList scratch.capacity log source.signals := by
  unfold Reading.conclude conclude
  by_cases blank : scratch.isEmpty = true
  · have empty : scratch.bytes.toList.isEmpty = true := by simpa [Scratch.isEmpty] using blank
    rw [if_pos blank, if_pos empty]
    rfl
  · have begun : ¬ scratch.bytes.toList.isEmpty = true := by simpa [Scratch.isEmpty] using blank
    rw [if_neg blank, if_neg begun, ofReading_complete]

end Passage

/-- The capacity that the buffer of the next line ends with. -/
def Source.lineCapacity (source : Source) : Nat := (Reading.gather source {}).scratch.capacity

namespace Passage

theorem ofReading_line (source : Source) :
    ofReading (Reading.line source) = line source.lineCapacity source.signals := by
  have gathered := Reading.gather_signals source {}
  unfold Reading.line line Source.lineCapacity
  revert gathered
  generalize Reading.gather source {} = result
  obtain ⟨scratch, ending, after⟩ := result
  rintro ⟨bytes, last⟩
  have content : scratch.bytes.toList = Signal.content source.signals := by simpa using bytes
  simp only [← last, ← content]
  cases ending with
  | endOfInput => exact ofReading_conclude scratch [] after
  | failed fault => exact ofReading_conclude scratch [.lineFailed fault] after
  | lineFeed => exact ofReading_complete scratch [] after
  | carriageReturn =>
    simp only [← Reading.skipLineFeed_signals after]
    exact ofReading_complete scratch _ _

theorem ofReading_character (source : Source) :
    ofReading (Reading.character source) = character source.signals := by
  unfold Reading.character
  split
  next fault after awaited =>
    rw [Source.signals_of_await_error source fault after awaited]
    rfl
  next after awaited =>
    rcases Source.signals_of_await_nil source after awaited with stopped | ⟨finished, still⟩
    · rw [stopped]
      rfl
    · rw [finished]
      simp [ofReading, character, still]
  next byte others after awaited =>
    have consumed := Source.signals_of_await_ok source [byte] others after awaited (by simp)
    rw [consumed]
    rfl

/-- Every read is known by its passage. -/
theorem ofReading_read (source : Source) (extent : Extent) :
    ofReading (source.read extent) = read source.lineCapacity source.signals extent := by
  cases extent with
  | line => exact ofReading_line source
  | character => exact ofReading_character source

end Passage

namespace Source

theorem text_read (source : Source) (extent : Extent) :
    (source.read extent).text = (Passage.read source.lineCapacity source.signals extent).text :=
  congrArg Passage.text (Passage.ofReading_read source extent)

theorem signals_read (source : Source) (extent : Extent) :
    (source.read extent).source.signals =
      (Passage.read source.lineCapacity source.signals extent).rest :=
  congrArg Passage.rest (Passage.ofReading_read source extent)

end Source
end Console
