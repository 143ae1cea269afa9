import Console.Proofs.PrintOutcome
import Console.Proofs.Splitting
import Mathlib.Data.List.Chain

/-!
# Reading undoes printing

Lines that are printed one after the other are read back as they were, and so
are lines that end in any of the three ways, mixed freely. There is one way to
go wrong: a carriage return and the line feed of a blank line after it read as
one end. A last line needs no end if it is not blank.
-/
namespace Console

/-- A text in which no line ends. -/
structure Line where
  text : Text
  unbroken : ∀ byte ∈ text.content, endsLine byte = false

/-- What may end a line. -/
inductive Terminator where
  | lineFeed
  | carriageReturn
  | pair
deriving DecidableEq

def Terminator.bytes : Terminator → Bytes
  | .lineFeed => [Console.lineFeed]
  | .carriageReturn => [Console.carriageReturn]
  | .pair => [Console.carriageReturn, Console.lineFeed]

namespace Lines

/-- Lines with their ends, as they are written. -/
def written (lines : List (Line × Terminator)) : Bytes :=
  lines.flatMap fun (line, terminator) => line.text.content ++ terminator.bytes

/-- The ends of two lines in a row cannot be taken for one. -/
def Apart (first second : Line × Terminator) : Prop :=
  ¬ (first.2 = .carriageReturn ∧ second.1.text = Text.empty ∧ second.2 = .lineFeed)

instance : DecidableRel Apart := fun _ _ => inferInstanceAs (Decidable (¬ _))

private theorem head_line (line : Line) (rest : Bytes) (begun : line.text ≠ Text.empty) :
    (line.text.content ++ rest).head? ≠ some lineFeed := by
  cases content : line.text.content with
  | nil => exact absurd (Text.ext content) begun
  | cons byte others =>
    have inside := line.unbroken byte (by simp [content])
    simp only [endsLine, Bool.or_eq_false_iff, beq_eq_false_iff_ne] at inside
    simpa using inside.1

/-- What follows a carriage return does not begin with a line feed. -/
private theorem head_written (first : Line × Terminator) (lines : List (Line × Terminator))
    (last : Bytes) (returned : first.2 = .carriageReturn)
    (apart : (first :: lines).IsChain Apart) (ending : last.head? ≠ some lineFeed) :
    (written lines ++ last).head? ≠ some lineFeed := by
  cases lines with
  | nil => exact ending
  | cons second later =>
    obtain ⟨line, terminator⟩ := second
    have follows := (List.isChain_cons_cons.mp apart).1
    simp only [written, List.flatMap_cons, List.append_assoc]
    by_cases blank : line.text = Text.empty
    · -- a blank line begins with its end, which must not be a line feed alone
      have other : terminator ≠ .lineFeed := fun fed => follows ⟨returned, blank, fed⟩
      rw [blank, Text.content_empty, List.nil_append]
      cases terminator with
      | lineFeed => exact absurd rfl other
      | carriageReturn => simp [Terminator.bytes, lineFeed, carriageReturn]
      | pair => simp [Terminator.bytes, lineFeed, carriageReturn]
    · exact head_line line _ blank

/-- Lines that stand apart are split as they were written. -/
theorem split_written (lines : List (Line × Terminator)) (last : Bytes)
    (apart : lines.IsChain Apart) (ending : last.head? ≠ some lineFeed) :
    split (written lines ++ last) = lines.map (·.1.text.content) ++ split last := by
  induction lines with
  | nil => rfl
  | cons first later ih =>
    obtain ⟨line, terminator⟩ := first
    have rest := ih apart.tail
    have fed (rest : Bytes) := split_lineFeed line.text.content rest line.unbroken
    have returned (rest : Bytes) := split_carriageReturn line.text.content rest line.unbroken
    rw [Text.ofBytes_content] at fed returned
    simp only [written, List.flatMap_cons, List.append_assoc, List.map_cons, List.cons_append]
    rw [← rest]
    cases terminator with
    | lineFeed => exact fed (written later ++ last)
    | pair => exact returned (lineFeed :: (written later ++ last))
    | carriageReturn =>
      -- here the split would also drop a line feed, and apartness says that none follows
      have kept := dropLineFeed_of_head _ (head_written _ later last rfl apart ending)
      have split := returned (written later ++ last)
      rw [kept] at split
      exact split

/-- A last line without an end is split off too, unless it is blank. -/
theorem split_written_last (lines : List (Line × Terminator)) (last : Option Line)
    (apart : lines.IsChain Apart) (begun : ∀ line ∈ last, line.text ≠ Text.empty) :
    split (written lines ++ last.toList.flatMap (·.text.content)) =
      (lines.map (·.1.text) ++ last.toList.map (·.text)).map Text.content := by
  cases last with
  | none =>
    have split := split_written lines [] apart (by simp)
    rw [split_open [] (by simp)] at split
    simpa [Function.comp_def] using split
  | some line =>
    have begins := begun line rfl
    have nonempty : ¬ line.text.content.isEmpty = true := by
      intro blank
      exact begins (Text.ext (List.isEmpty_iff.mp blank))
    have other : line.text.content.head? ≠ some lineFeed := by
      simpa using head_line line [] begins
    have split := split_written lines line.text.content apart other
    rw [split_open line.text.content line.unbroken, if_neg nonempty,
      Text.ofBytes_content] at split
    simpa [Function.comp_def] using split

end Lines

namespace Sink

/-- A sink that refuses nothing accepts all that is printed. -/
theorem accepted_print (sink : Sink) (clear : sink.refusals = []) (printing : Printing Text) :
    (sink.print printing).2.accepted.toList = sink.accepted.toList ++ printing.rendering ∧
      (sink.print printing).2.refusals = [] := by
  obtain ⟨out, flushes, accepted, -, printed | broken⟩ := emit_outcome sink printing.pieces
  · obtain ⟨passed, refusals, -⟩ := printed.met
    rw [clear] at refusals
    rw [printed.out_eq] at accepted
    exact ⟨accepted, (List.append_eq_nil_iff.mp refusals.symm).2⟩
  · obtain ⟨passed, offset, refusal, refusals, -⟩ := broken.met
    rw [clear] at refusals
    simp at refusals

end Sink

namespace Session

/-- Prints lines, each with a line feed after it. -/
def printLines (lines : List Line) : List Command :=
  lines.map fun line => .print (.println (.bytes line.text.content))

/-- Asks for lines, so many times. -/
def askLines (count : Nat) : List Command := List.replicate count (.read .line)

private theorem accepted_printLines (session : Session) (clear : session.sink.refusals = [])
    (lines : List Line) :
    (session.run (printLines lines)).2.sink.accepted.toList =
      session.sink.accepted.toList ++ Lines.written (lines.map (·, .lineFeed)) := by
  induction lines generalizing session with
  | nil => exact (List.append_nil _).symm
  | cons line later ih =>
    have sink : (session.step (.print (.println (.bytes line.text.content)))).2.sink =
        (session.sink.print (.println line.text)).2 := by
      change (session.sink.print (.println (Text.ofBytes line.text.content))).2 = _
      rw [Text.ofBytes_content]
    obtain ⟨accepted, still⟩ := session.sink.accepted_print clear (.println line.text)
    rw [← sink] at accepted still
    calc (session.run (printLines (line :: later))).2.sink.accepted.toList
      _ = (session.step (.print (.println (.bytes line.text.content)))).2.sink.accepted.toList ++
          Lines.written (later.map (·, .lineFeed)) := ih _ still
      _ = session.sink.accepted.toList ++ Lines.written ((line :: later).map (·, .lineFeed)) := by
        rw [accepted]
        simp [Lines.written, Terminator.bytes]

private theorem asked_lines (session : Session) (steady : session.source.Steady)
    (texts : List Text) (same : Lines.split session.source.unread = texts.map Text.content) :
    (session.run (askLines (texts.length + 1))).1.map Answer.text? = texts.map some ++ [none] := by
  have split := (session.source.lines_of_steady steady).1
  rw [same] at split
  have read : session.source.lines.1 = texts :=
    (List.map_inj_right fun _ _ => Text.ext).mp split
  have answers := (run_lines session.source session rfl).1
  rw [read] at answers
  exact answers

/-- However steady input is delivered, asking for lines gives back the lines it
was made of, and then none. It may be made by printing them to a sink without
faults, or by writing a text and an end of any kind in turns. Then the lines must
stand apart, and a last line may go without an end if it is not blank. -/
theorem lines_undo_printing (deliveries : List Delivery) (window : Option Portion) (sink : Sink)
    (steady : ∀ delivery ∈ deliveries, delivery.stops = false) :
    let session : Session := { source := { window, pending := deliveries }, sink }
    let input := deliveries.flatMap Delivery.bytes
    (∀ (lines : List Line) (portion : Option Portion) (source : Source),
      input = (run { source, sink := { portion } } (printLines lines)).2.sink.accepted.toList →
      (session.run (askLines (lines.length + 1))).1.map Answer.text? =
        lines.map (some ·.text) ++ [none]) ∧
    (∀ (lines : List (Line × Terminator)) (last : Option Line),
      lines.IsChain Lines.Apart → (∀ line ∈ last, line.text ≠ Text.empty) →
      input = Lines.written lines ++ last.toList.flatMap (·.text.content) →
      let texts := lines.map (·.1.text) ++ last.toList.map (·.text)
      (session.run (askLines (texts.length + 1))).1.map Answer.text? =
        texts.map some ++ [none]) := by
  intro session input
  have still : session.source.Steady := Source.steady_of_pending window deliveries steady
  have general (lines : List (Line × Terminator)) (last : Option Line)
      (apart : lines.IsChain Lines.Apart) (begun : ∀ line ∈ last, line.text ≠ Text.empty)
      (made : input = Lines.written lines ++ last.toList.flatMap (·.text.content)) :=
    asked_lines session still _
      ((congrArg Lines.split made).trans (Lines.split_written_last lines last apart begun))
  refine ⟨?_, general⟩
  intro lines portion source printed
  -- printed lines all end in a line feed, and stand apart for that reason
  have apart : (lines.map (·, Terminator.lineFeed)).IsChain Lines.Apart := by
    rw [List.isChain_map]
    apply List.Pairwise.isChain
    apply List.pairwise_of_forall
    intro first second ends
    exact nomatch ends.1
  have made := accepted_printLines { source, sink := { portion } } rfl lines
  have asked := general (lines.map (·, .lineFeed)) none apart (by simp)
    (by simpa [printed] using made)
  simpa [Function.comp_def] using asked

/-- A line of one letter. -/
def letterA : Line := ⟨Text.ofBytes [97], by simp [endsLine, lineFeed, carriageReturn]⟩

def letterB : Line := ⟨Text.ofBytes [98], by simp [endsLine, lineFeed, carriageReturn]⟩

def blankLine : Line := ⟨Text.empty, nofun⟩

/-- Three lines, the one in the middle blank. -/
def threeLines : List Line := [letterA, blankLine, letterB]

/-- They come as they are printed, torn inside and between lines. -/
def threeLinesPrinted : List Delivery :=
  [.data [97], .failure ⟨.interrupted, "again"⟩, .data [10, 10, 98], .data [10]]

/-- The first two of them with other ends. -/
def twoLinesEnded : List (Line × Terminator) :=
  [(letterA, .carriageReturn), (blankLine, .pair)]

/-- They come with these ends, the pair torn, and the third one without an end. -/
def threeLinesMixed : List Delivery :=
  [.data [97, 13, 13], .failure ⟨.interrupted, "again"⟩, .data [10, 98]]

theorem lines_undo_printing_of_threeLines :
    (∀ delivery ∈ threeLinesPrinted ++ threeLinesMixed, delivery.stops = false) ∧
      threeLinesPrinted.flatMap Delivery.bytes =
        (run { source := {}, sink := { portion := some ⟨1, Nat.one_pos⟩ } }
          (printLines threeLines)).2.sink.accepted.toList ∧
      (run { source := { window := some ⟨2, Nat.two_pos⟩, pending := threeLinesPrinted },
             sink := {} } (askLines 4)).1.map Answer.text? =
        threeLines.map (some ·.text) ++ [none] ∧
      twoLinesEnded.IsChain Lines.Apart ∧
      threeLinesMixed.flatMap Delivery.bytes = Lines.written twoLinesEnded ++ [98] ∧
      (run { source := { pending := threeLinesMixed }, sink := {} } (askLines 4)).1.map
          Answer.text? =
        threeLines.map (some ·.text) ++ [none] :=
  ⟨by decide, by decide +kernel,
    (lines_undo_printing _ _ {} (by decide)).1 threeLines (some ⟨1, Nat.one_pos⟩) {}
      (by decide +kernel),
    by decide, by decide,
    (lines_undo_printing _ none {} (by decide)).2 twoLinesEnded
      (some letterB) (by decide) (by simp [letterB, Text.ext_iff]) (by decide)⟩

end Session
end Console
