import Console.Lines
import Console.Proofs.Passage
import Console.Session

/-!
# Lines read are lines split

From a source without stops, reading lines until there is none gives the lines
that a plain split of the unread bytes gives. The split goes byte by byte and
never looks at a source, so nothing about deliveries is left in the result.
-/
namespace Console

namespace Lines

theorem splitFrom_append (current line rest : Bytes)
    (isOpen : ∀ byte ∈ line, endsLine byte = false) :
    splitFrom current (line ++ rest) = splitFrom (current ++ line) rest := by
  induction line generalizing current with
  | nil => rw [List.nil_append, List.append_nil]
  | cons byte line ih =>
    have inside := isOpen byte List.mem_cons_self
    simp only [endsLine, Bool.or_eq_false_iff, beq_eq_false_iff_ne] at inside
    rw [List.cons_append, splitFrom, if_neg inside.1, if_neg inside.2,
      ih (current ++ [byte]) (fun other member => isOpen other (List.mem_cons_of_mem _ member)),
      List.append_assoc]
    rfl

private theorem cut_eq_content (line : Bytes) :
    line.take (lengthBeforeZero line) = (Text.ofBytes line).content :=
  take_lengthBeforeZero line

theorem split_lineFeed (line rest : Bytes) (isOpen : ∀ byte ∈ line, endsLine byte = false) :
    split (line ++ lineFeed :: rest) = (Text.ofBytes line).content :: split rest := by
  unfold split
  rw [splitFrom_append [] line _ isOpen, splitFrom, if_pos rfl, List.map_cons, cut_eq_content]
  rfl

theorem split_carriageReturn (line rest : Bytes) (isOpen : ∀ byte ∈ line, endsLine byte = false) :
    split (line ++ carriageReturn :: rest) =
      (Text.ofBytes line).content :: split (dropLineFeed rest) := by
  unfold split
  rw [splitFrom_append [] line _ isOpen, splitFrom, if_neg (by decide), if_pos rfl, List.map_cons,
    cut_eq_content]
  rfl

theorem split_open (line : Bytes) (isOpen : ∀ byte ∈ line, endsLine byte = false) :
    split line = if line.isEmpty then [] else [(Text.ofBytes line).content] := by
  unfold split
  rw [← List.append_nil line, splitFrom_append [] line [] isOpen, splitFrom]
  simp only [List.nil_append, List.append_nil]
  split
  · rfl
  · rw [List.map_singleton, cut_eq_content]

end Lines

/-- Without stops, looking ahead drops the line feed that a split drops. -/
private theorem bytes_lookAhead (signals : List Signal)
    (steady : ∀ fault, Signal.stop fault ∉ signals) :
    Signal.bytes (Signal.lookAhead signals).2 = Lines.dropLineFeed (Signal.bytes signals) := by
  cases signals with
  | nil => rfl
  | cons signal later =>
    cases signal with
    | stop fault => exact absurd List.mem_cons_self (steady fault)
    | byte value =>
      simp only [Signal.lookAhead, Signal.bytes_byte, Lines.dropLineFeed]
      split <;> rfl

namespace Source

/-- Nothing but bytes is to come. -/
def Steady (source : Source) : Prop := ∀ fault, Signal.stop fault ∉ source.signals

theorem steady_of_pending (window : Option Portion) (pending : List Delivery)
    (steady : ∀ delivery ∈ pending, delivery.stops = false) :
    Steady { window, pending } := by
  intro fault member
  obtain ⟨delivery, among, stop⟩ := List.mem_flatMap.mp member
  have stops := Delivery.stops_of_mem_signals delivery fault stop
  rw [steady delivery among] at stops
  exact Bool.false_ne_true stops

/-- The source hands out these bytes, in pieces of any size but none of them empty, and
nothing stops it. -/
structure Delivers (source : Source) (bytes : Bytes) : Prop where
  unread_eq : source.unread = bytes
  steady : ∀ delivery ∈ source.pending, delivery.stops = false

theorem Delivers.isSteady {source : Source} {bytes : Bytes} (delivers : source.Delivers bytes) :
    source.Steady := by
  intro fault member
  rcases List.mem_append.mp member with now | later
  · simp [Signal.ofBytes] at now
  · exact steady_of_pending none source.pending delivers.steady fault later

theorem delivers_ofBytes (bytes : Bytes) : (Source.ofBytes bytes).Delivers bytes where
  unread_eq := List.append_nil bytes
  steady := by simp [ofBytes]

theorem steady_read (source : Source) (steady : source.Steady) (extent : Extent) :
    (source.read extent).source.Steady := by
  intro fault member
  rw [signals_read] at member
  have suffix := Passage.rest_read_isSuffix source.lineCapacity source.signals extent
  exact steady fault (suffix.subset member)

/-- One line read is one line split off. -/
theorem split_unread (source : Source) (steady : source.Steady) :
    match (source.read .line).text with
    | none => Lines.split source.unread = [] ∧ (source.read .line).source.unread = []
    | some text => Lines.split source.unread =
        text.content :: Lines.split (source.read .line).source.unread := by
  have isOpen := Signal.endsLine_of_mem_content source.signals
  have text := text_read source .line
  have left := congrArg Signal.bytes (signals_read source .line)
  rw [bytes_signals] at left
  simp only [Passage.read] at text left
  rcases Passage.line_cases source.lineCapacity source.signals with
    ⟨all, passed⟩ | ⟨fault, later, signals, passed⟩ | ⟨later, signals, passed⟩ |
      ⟨later, signals, passed⟩
  · -- the last line has no end and counts if it has begun
    have unread : source.unread = Signal.content source.signals := by
      simpa using congrArg Signal.bytes all
    rw [passed, Passage.rest_conclude] at left
    rw [text, passed, left, unread, Lines.split_open _ isOpen, Passage.conclude]
    by_cases blank : (Signal.content source.signals).isEmpty = true
    · rw [if_pos blank, if_pos blank]
      exact ⟨rfl, rfl⟩
    · rw [if_neg blank, if_neg blank]
      exact congrArg _ (Lines.split_open [] (by simp)).symm
  · -- a source that is steady has no stop to end a line at
    refine absurd ?_ (steady fault)
    rw [signals]
    simp
  · have unread : source.unread =
        Signal.content source.signals ++ lineFeed :: Signal.bytes later := by
      rw [← bytes_signals]
      simpa using congrArg Signal.bytes signals
    rw [passed] at text left
    rw [text, left, unread]
    exact Lines.split_lineFeed _ _ isOpen
  · have unread : source.unread =
        Signal.content source.signals ++ carriageReturn :: Signal.bytes later := by
      rw [← bytes_signals]
      simpa using congrArg Signal.bytes signals
    -- the look ahead meets no stop, so it drops just what a split drops
    have still : ∀ fault, Signal.stop fault ∉ later := by
      intro fault member
      refine absurd ?_ (steady fault)
      rw [signals]
      exact List.mem_append_right _ member
    rw [passed] at text left
    rw [text, left, unread]
    simp only [Passage.complete]
    rw [bytes_lookAhead later still]
    exact Lines.split_carriageReturn _ _ isOpen

/-- Reading lines until there is none is splitting, and leaves nothing. -/
theorem lines_of_steady (source : Source) (steady : source.Steady) :
    source.lines.1.map Text.content = Lines.split source.unread ∧ source.lines.2.unread = [] := by
  fun_induction lines source with
  | case1 source reading nothing =>
    have last := split_unread source steady
    rw [nothing] at last
    exact ⟨last.1.symm, last.2⟩
  | case2 source reading text given texts after rest ih =>
    have next := split_unread source steady
    rw [given] at next
    obtain ⟨same, finished⟩ := ih (steady_read source steady .line)
    rw [rest] at same finished
    refine ⟨?_, finished⟩
    rw [next, List.map_cons, same]

end Source

namespace Session

/-- The text that a read answers with. -/
def Answer.text? : Answer → Option Text
  | .read text _ => text
  | .printed .. | .noText => none

theorem steady_run (session : Session) (steady : session.source.Steady) (extents : List Extent) :
    (session.run (extents.map .read)).2.source.Steady := by
  induction extents generalizing session with
  | nil => exact steady
  | cons extent extents ih =>
    exact ih (session.step (.read extent)).2 (Source.steady_read session.source steady extent)

/-- The lines of a source are what a session is answered that asks for one line
after the other, and once more. -/
theorem run_lines (source : Source) (session : Session) (same : session.source = source) :
    let asked := session.run (List.replicate (source.lines.1.length + 1) (.read .line))
    asked.1.map Answer.text? = source.lines.1.map some ++ [none] ∧
      asked.2.source = source.lines.2 := by
  fun_induction Source.lines source generalizing session with
  | case1 source reading nothing =>
    subst same
    simp only [List.length_nil, List.replicate, run, step]
    exact ⟨by simp [Answer.text?, reading, nothing], rfl⟩
  | case2 source reading text given texts after rest ih =>
    subst same
    obtain ⟨answers, left⟩ := ih (session.step (.read .line)).2 rfl
    rw [rest] at answers left
    have first : Answer.text? (session.step (.read .line)).1 = some text := given
    simp only [List.length_cons]
    rw [List.replicate_succ]
    simp only [run, List.map_cons, first, answers, List.cons_append]
    exact ⟨trivial, left⟩

/-- However steady input is delivered, and whatever was read of it before, the
lines read until there is none are the lines of a plain split of the unread
bytes. Asked for one line more than these, a session is told that there is none,
and nothing is left. -/
theorem lines_eq_split (deliveries : List Delivery) (window : Option Portion) (sink : Sink)
    (extents : List Extent) (steady : ∀ delivery ∈ deliveries, delivery.stops = false) :
    let reached := (run { source := { window, pending := deliveries }, sink } (extents.map .read)).2
    let lines := Lines.split reached.source.unread
    let asked := reached.run (List.replicate (lines.length + 1) (.read .line))
    reached.source.lines.1.map Text.content = lines ∧
      asked.1.map Answer.text? = reached.source.lines.1.map some ++ [none] ∧
      reached.source.lines.2.unread = [] ∧ asked.2.source.unread = [] := by
  intro reached lines asked
  have still : reached.source.Steady :=
    steady_run _ (Source.steady_of_pending window deliveries steady) extents
  obtain ⟨same, finished⟩ := Source.lines_of_steady reached.source still
  obtain ⟨answers, left⟩ := run_lines reached.source reached rfl
  have count : lines.length = reached.source.lines.1.length := by
    rw [← List.length_map Text.content, same]
  simp only [← count] at answers left
  exact ⟨same, answers, finished, by rw [left]; exact finished⟩

/-- Lines whose ends are torn, blank or missing, the last one with a zero in it. -/
def raggedLines : List Delivery :=
  [.data [97, 98, 13], .failure ⟨.interrupted, "again"⟩, .data [10, 13, 99, 0, 100]]

theorem lines_eq_split_of_raggedLines :
    (∀ delivery ∈ raggedLines, delivery.stops = false) ∧
      Lines.split [98, 13, 10, 13, 99, 0, 100] = [[98], [], [99]] ∧
      (run { source := { window := some ⟨2, Nat.two_pos⟩, pending := raggedLines }, sink := {} }
          [.read .character]).2.source.lines.1.map Text.content =
        Lines.split (run
          { source := { window := some ⟨2, Nat.two_pos⟩, pending := raggedLines }, sink := {} }
          [.read .character]).2.source.unread :=
  ⟨by decide, by decide +kernel, (lines_eq_split raggedLines (some ⟨2, Nat.two_pos⟩) {}
    [.character] (by decide)).1⟩

end Session
end Console
