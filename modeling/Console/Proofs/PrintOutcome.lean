import Console.Proofs.Numerals
import Console.Session

/-!
# What comes of printing

A printing operation is a list of pieces, and a sink may refuse at any offset:
inside a piece, between two, several times in one place. Nevertheless there are
only two outcomes. Either all is printed and flushed once, and only a flush can
be at fault, or printing broke off at the first refusal that is no interruption,
with less than all printed and no flush.

What all is, `Session.Renders` tells without a look at the pieces: by the texts
that are named, and by canonical numerals.
-/
namespace Console

namespace Sink

/-- Between two states of a sink `bytes` were accepted and nothing was flushed;
every refusal met on the way was an interruption. -/
structure Delivered (before : Sink) (bytes : Bytes) (after : Sink) : Prop where
  accepted : after.accepted.toList = before.accepted.toList ++ bytes
  met : ∃ passed, before.refusals = passed ++ after.refusals ∧
    ∀ entry ∈ passed, entry.2.isInterruption = true
  flushes : after.flushes = before.flushes
  flushFaults : after.flushFaults = before.flushFaults

/-- A part of `bytes` was delivered, and then came the refusal to report. -/
def Refused (before : Sink) (bytes : Bytes) (fault : Fault) (after : Sink) : Prop :=
  ∃ part missing middle refusal, bytes = part ++ missing ∧ missing ≠ [] ∧
    before.Delivered part middle ∧ middle.due? = some refusal ∧
    refusal.isInterruption = false ∧ fault = refusal.reported ∧ after = middle.pass

/-- How a write ended, told by the fault it reports. -/
def Wrote (before : Sink) (bytes : Bytes) : Option Fault × Sink → Prop
  | (none, after) => before.Delivered bytes after
  | (some fault, after) => before.Refused bytes fault after

theorem delivered_nil (sink : Sink) : sink.Delivered [] sink where
  accepted := (List.append_nil _).symm
  met := ⟨[], rfl, by simp⟩
  flushes := rfl
  flushFaults := rfl

theorem Delivered.trans {first second third : Sink} {bytes more : Bytes}
    (start : first.Delivered bytes second) (later : second.Delivered more third) :
    first.Delivered (bytes ++ more) third := by
  obtain ⟨passed, startRefusals, startMet⟩ := start.met
  obtain ⟨passedLater, laterRefusals, laterMet⟩ := later.met
  constructor
  · rw [later.accepted, start.accepted, List.append_assoc]
  · refine ⟨passed ++ passedLater, ?_, ?_⟩
    · rw [startRefusals, laterRefusals, List.append_assoc]
    · intro entry member
      rcases List.mem_append.mp member with here | there
      · exact startMet entry here
      · exact laterMet entry there
  · rw [later.flushes, start.flushes]
  · rw [later.flushFaults, start.flushFaults]

theorem Delivered.wrote {before middle : Sink} {bytes more : Bytes} {result : Option Fault × Sink}
    (start : before.Delivered bytes middle) (later : middle.Wrote more result) :
    before.Wrote (bytes ++ more) result := by
  obtain ⟨fault, after⟩ := result
  cases fault with
  | none => exact start.trans later
  | some fault =>
    obtain ⟨part, missing, last, refusal, rfl, some_missing, delivered, rest⟩ := later
    exact ⟨bytes ++ part, missing, last, refusal, (List.append_assoc _ _ _).symm, some_missing,
      start.trans delivered, rest⟩

theorem Refused.append {before after : Sink} {bytes : Bytes} {fault : Fault}
    (refused : before.Refused bytes fault after) (more : Bytes) :
    before.Refused (bytes ++ more) fault after := by
  obtain ⟨part, missing, middle, refusal, rfl, some_missing, rest⟩ := refused
  exact ⟨part, missing ++ more, middle, refusal, List.append_assoc _ _ _,
    by simp [some_missing], rest⟩

private theorem refusals_of_due (sink : Sink) (refusal : Refusal)
    (due : sink.due? = some refusal) :
    ∃ offset, sink.refusals = (offset, refusal) :: sink.pass.refusals := by
  cases refusals : sink.refusals with
  | nil => simp [due?, refusals] at due
  | cons entry later =>
    obtain ⟨offset, found⟩ := entry
    simp only [due?, refusals] at due
    split at due
    next =>
      cases due
      exact ⟨offset, by simp [pass, refusals]⟩
    next => simp at due

private theorem delivered_pass (sink : Sink) (refusal : Refusal)
    (due : sink.due? = some refusal) (interrupted : refusal.isInterruption = true) :
    sink.Delivered [] sink.pass := by
  obtain ⟨offset, refusals⟩ := refusals_of_due sink refusal due
  constructor
  · exact (List.append_nil _).symm
  · exact ⟨[(offset, refusal)], refusals, by simpa using interrupted⟩
  · rfl
  · rfl

private theorem delivered_accept (sink : Sink) (bytes : Bytes) :
    sink.Delivered bytes (sink.accept bytes) where
  accepted := toList_accepted_accept sink bytes
  met := ⟨[], rfl, by simp⟩
  flushes := rfl
  flushFaults := rfl

theorem wrote_writeAll (sink : Sink) (buffer : Bytes) :
    sink.Wrote buffer (sink.writeAll buffer) := by
  fun_induction writeAll sink buffer with
  | case1 sink => exact delivered_nil sink
  | case2 sink first others refusal due interrupted ih =>
    -- an interruption delivers no byte, and the same buffer is offered again
    exact (delivered_pass sink refusal due interrupted).wrote ih
  | case3 sink first others refusal due final =>
    -- nothing of the buffer has been accepted, and all of it is missing
    exact ⟨[], first :: others, sink, refusal, rfl, by simp, delivered_nil sink, due,
      by simpa using final, rfl, rfl⟩
  | case4 sink first others free taken ih =>
    -- a short write delivers its share, and the rest of the buffer is offered next
    obtain ⟨rest, whole⟩ := sink.share_isPrefix (first :: others)
    have dropped : (first :: others).drop taken.length = rest := by
      rw [← whole, List.drop_left]
    rw [dropped] at ih ⊢
    rw [← whole]
    exact (delivered_accept sink taken).wrote ih

theorem wrote_writePieces (sink : Sink) (pieces : List Bytes) :
    sink.Wrote pieces.flatten (sink.writePieces pieces) := by
  induction pieces generalizing sink with
  | nil => exact delivered_nil sink
  | cons piece rest ih =>
    have wrote := wrote_writeAll sink piece
    rw [List.flatten_cons, writePieces]
    split
    next fault after written =>
      -- the pieces after a refusal are missing as well
      rw [written] at wrote
      exact Refused.append wrote rest.flatten
    next after written =>
      rw [written] at wrote
      exact Delivered.wrote wrote (ih after)

private theorem writePieces_of_flatten_nil (sink : Sink) (pieces : List Bytes)
    (empty : pieces.flatten = []) : sink.writePieces pieces = (none, sink) := by
  induction pieces with
  | nil => rfl
  | cons piece rest ih =>
    rw [List.flatten_cons, List.append_eq_nil_iff] at empty
    rw [writePieces, empty.1, writeAll_nil]
    exact ih empty.2

/-- A flush changes nothing but what concerns flushes. -/
private theorem flush_cases (sink : Sink) :
    sink.flush.2.accepted = sink.accepted ∧ sink.flush.2.refusals = sink.refusals ∧
      sink.flush.2.flushes = sink.flushes + 1 ∧
      ∀ fault, sink.flush.1 = some fault ↔
        ∃ later, sink.flushFaults = (sink.flushes, fault) :: later := by
  unfold flush
  split
  next none => simp [none]
  next number fault later faults =>
    split
    next due => simp [faults, due]
    next other => simp [faults, other]

/-- All was printed and flushed once. -/
structure Printed (before : Sink) (rendering out : Bytes) (flushes : Nat) (fault : Option Fault)
    (after : Sink) : Prop where
  out_eq : out = rendering
  flushes_eq : flushes = 1
  met : ∃ passed, before.refusals = passed ++ after.refusals ∧
    ∀ entry ∈ passed, entry.2.isInterruption = true
  /-- Only the flush can be at fault, and is if its number comes up. -/
  fault_iff : ∀ cause, fault = some cause ↔
    ∃ later, before.flushFaults = (before.flushes, cause) :: later

/-- Printing broke off at the first refusal that was no interruption. -/
structure BrokeOff (before : Sink) (rendering out : Bytes) (flushes : Nat) (fault : Option Fault)
    (after : Sink) : Prop where
  out_prefix : out <+: rendering
  out_ne : out ≠ rendering
  flushes_eq : flushes = 0
  met : ∃ passed offset refusal, before.refusals = passed ++ (offset, refusal) :: after.refusals ∧
    (∀ entry ∈ passed, entry.2.isInterruption = true) ∧ refusal.isInterruption = false ∧
    fault = some (match refusal with
      | .failure cause => cause
      | .nothing => { kind := .writeZero, message := "failed to write whole buffer" })

theorem emit_outcome (sink : Sink) (pieces : List Bytes) :
    ∃ out flushes, (sink.emit pieces).2.accepted.toList = sink.accepted.toList ++ out ∧
      (sink.emit pieces).2.flushes = sink.flushes + flushes ∧
      (sink.Printed pieces.flatten out flushes (sink.emit pieces).1 (sink.emit pieces).2 ∨
        sink.BrokeOff pieces.flatten out flushes (sink.emit pieces).1 (sink.emit pieces).2) := by
  have wrote := wrote_writePieces sink pieces
  rw [emit]
  split
  next fault after written =>
    -- writing broke off, and no flush was tried
    rw [written] at wrote
    obtain ⟨part, missing, middle, refusal, whole, some_missing, delivered, due, final, rfl, rfl⟩ :=
      wrote
    obtain ⟨passed, refusals, interrupted⟩ := delivered.met
    obtain ⟨offset, next⟩ := refusals_of_due middle refusal due
    refine ⟨part, 0, delivered.accepted, delivered.flushes, Or.inr ?_⟩
    constructor
    · exact ⟨missing, whole.symm⟩
    · intro all
      rw [whole, List.self_eq_append_right] at all
      exact some_missing all
    · rfl
    · refine ⟨passed, offset, refusal, by rw [refusals, next], interrupted, final, ?_⟩
      cases refusal <;> rfl
  next after written =>
    -- writing left the flushes alone, so the one tried now has the number it had before
    rw [written] at wrote
    obtain ⟨accepted, refusals, flushes, faults⟩ := flush_cases after
    refine ⟨pieces.flatten, 1, ?_, ?_, Or.inl ?_⟩
    · rw [accepted]
      exact wrote.accepted
    · rw [flushes, wrote.flushes]
    · constructor
      · rfl
      · rfl
      · rw [refusals]
        exact wrote.met
      · rw [← wrote.flushes, ← wrote.flushFaults]
        exact faults

theorem refusals_emit_of_flatten_nil (sink : Sink) (pieces : List Bytes)
    (empty : pieces.flatten = []) : (sink.emit pieces).2.refusals = sink.refusals := by
  rw [emit, writePieces_of_flatten_nil sink pieces empty]
  exact (flush_cases sink).2.1

end Sink

namespace Session

/-! ## What is to be printed -/

/-- What an operation prints if it prints all, told operation by operation: its texts as the
session has them, a number by its canonical numeral, and the end of a line. -/
inductive Renders (session : Session) : Printing Argument → Bytes → Prop
  | print {argument : Argument} {text : Text} (found : session.find? argument = some text) :
      Renders session (.print argument) text.content
  | println {argument : Argument} {text : Text} (found : session.find? argument = some text) :
      Renders session (.println argument) (text.content ++ [lineFeed])
  | printNumber {argument : Argument} {text : Text} {number : Int64} {numeral : Decimal.Numeral}
      (found : session.find? argument = some text) (canonical : numeral.IsCanonical)
      (value : numeral.value = number.toInt) :
      Renders session (.printNumber argument number)
        (text.content ++ utf8 numeral.spelling ++ [lineFeed])
  | printPair {first second : Argument} {one other : Text}
      (found : session.find? first = some one) (found' : session.find? second = some other) :
      Renders session (.printPair first second) (one.content ++ other.content ++ [lineFeed])

/-- An operation all of whose texts are there has one rendering, which the pieces make up that
are written for it. -/
theorem exists_rendering (session : Session) (printing : Printing Argument)
    (named : ∀ argument ∈ printing.arguments, (session.find? argument).isSome = true) :
    ∃ resolved, printing.mapM session.find? = some resolved ∧
      ∀ bytes, session.Renders printing bytes ↔ bytes = resolved.rendering := by
  have text (argument : Argument) (member : argument ∈ printing.arguments) :=
    Option.isSome_iff_exists.mp (named argument member)
  cases printing with
  -- what is found for an argument does not change, so both speak of the same text
  | print argument =>
    obtain ⟨text, found⟩ := text argument List.mem_cons_self
    refine ⟨.print text, by simp [Printing.mapM, found], fun bytes => ⟨?_, ?_⟩⟩
    · intro renders
      cases renders with
      | print known =>
        obtain rfl := Option.some.inj (found.symm.trans known)
        exact (Printing.rendering_print _).symm
    · rintro rfl
      rw [Printing.rendering_print]
      exact .print found
  | println argument =>
    obtain ⟨text, found⟩ := text argument List.mem_cons_self
    refine ⟨.println text, by simp [Printing.mapM, found], fun bytes => ⟨?_, ?_⟩⟩
    · intro renders
      cases renders with
      | println known =>
        obtain rfl := Option.some.inj (found.symm.trans known)
        exact (Printing.rendering_println _).symm
    · rintro rfl
      rw [Printing.rendering_println]
      exact .println found
  | printNumber argument number =>
    obtain ⟨text, found⟩ := text argument List.mem_cons_self
    refine ⟨.printNumber text number, by simp [Printing.mapM, found], fun bytes => ⟨?_, ?_⟩⟩
    · intro renders
      cases renders with
      | printNumber known canonical value =>
        obtain rfl := Option.some.inj (found.symm.trans known)
        rw [Printing.rendering_printNumber, ← value, canonical.render_value]
    · rintro rfl
      -- every number has a canonical numeral, and that is what is written
      obtain ⟨numeral, canonical, value⟩ := Decimal.Numeral.exists_isCanonical number.toInt
      rw [Printing.rendering_printNumber, ← value, canonical.render_value]
      exact .printNumber found canonical value
  | printPair first second =>
    obtain ⟨one, found⟩ := text first List.mem_cons_self
    obtain ⟨other, found'⟩ := text second (List.mem_cons_of_mem _ List.mem_cons_self)
    refine ⟨.printPair one other, by simp [Printing.mapM, found, found'], fun bytes => ⟨?_, ?_⟩⟩
    · intro renders
      cases renders with
      | printPair known known' =>
        obtain rfl := Option.some.inj (found.symm.trans known)
        obtain rfl := Option.some.inj (found'.symm.trans known')
        exact (Printing.rendering_printPair _ _).symm
    · rintro rfl
      rw [Printing.rendering_printPair]
      exact .printPair found found'

/-! ## What comes of it -/

/-- A printing step of any session either prints all and flushes once, or breaks
off at the first refusal that is no interruption and flushes nothing. A step
with nothing to print meets no refusal. -/
theorem print_outcome (session : Session) (printing : Printing Argument)
    (named : ∀ argument ∈ printing.arguments, (session.find? argument).isSome = true) :
    ∃ rendering out flushes fault after,
      (∀ bytes, session.Renders printing bytes ↔ bytes = rendering) ∧
      session.step (.print printing) = (.printed out flushes fault, after) ∧
      after.sink.accepted.toList = session.sink.accepted.toList ++ out ∧
      after.sink.flushes = session.sink.flushes + flushes ∧
      (session.sink.Printed rendering out flushes fault after.sink ∨
        session.sink.BrokeOff rendering out flushes fault after.sink) ∧
      (rendering = [] → after.sink.refusals = session.sink.refusals) := by
  obtain ⟨resolved, found, renders⟩ := session.exists_rendering printing named
  obtain ⟨out, flushes, accepted, counted, outcome⟩ :=
    Sink.emit_outcome session.sink resolved.pieces
  refine ⟨resolved.rendering, out, flushes, (session.sink.print resolved).1,
    { session with sink := (session.sink.print resolved).2 }, renders, ?_, accepted, counted,
    outcome, Sink.refusals_emit_of_flatten_nil session.sink resolved.pieces⟩
  have shown :
      bytesSince (session.sink.print resolved).2.accepted session.sink.accepted.size = out :=
    bytesSince_of_append _ _ out accepted
  have flushed : (session.sink.print resolved).2.flushes - session.sink.flushes = flushes := by
    have total : (session.sink.print resolved).2.flushes = session.sink.flushes + flushes := counted
    omega
  simp only [step, found, shown, flushed]

/-- Inside a line the sink interrupts, and then takes nothing of what it is offered. -/
def balking : Session where
  source := {}
  sink := {
    portion := some ⟨1, Nat.one_pos⟩
    refusals := [(1, .failure ⟨.interrupted, "again"⟩), (1, .nothing)] }

/-- Inside a number the sink interrupts, and it cannot be flushed. -/
def unflushed : Session where
  source := {}
  sink := {
    portion := some ⟨2, Nat.two_pos⟩
    refusals := [(3, .failure ⟨.interrupted, "again"⟩)]
    flushFaults := [(0, ⟨.brokenPipe, "gone"⟩)] }

/-- The numeral `-12`. -/
def minusTwelve : Decimal.Numeral where
  sign := some .minus
  digits := [⟨1, by decide⟩, ⟨2, by decide⟩]
  some_digit := List.cons_ne_nil _ _

/-- A line of two bytes breaks off after the first. A number comes out whole before the flush
fails. -/
theorem print_outcome_of_balking :
    (balking.step (.print (.println (.bytes [97, 98])))).1 =
        .printed [97] 0 (some ⟨.writeZero, "failed to write whole buffer"⟩) ∧
      (∃ out flushes fault after,
        balking.step (.print (.println (.bytes [97, 98]))) = (.printed out flushes fault, after) ∧
        (balking.sink.Printed [97, 98, 10] out flushes fault after.sink ∨
          balking.sink.BrokeOff [97, 98, 10] out flushes fault after.sink)) ∧
      (unflushed.step (.print (.printNumber (.bytes [110]) (-12)))).1 =
        .printed [110, 45, 49, 50, 10] 1 (some ⟨.brokenPipe, "gone"⟩) ∧
      (∃ out flushes fault after,
        unflushed.step (.print (.printNumber (.bytes [110]) (-12))) =
          (.printed out flushes fault, after) ∧
        (unflushed.sink.Printed [110, 45, 49, 50, 10] out flushes fault after.sink ∨
          unflushed.sink.BrokeOff [110, 45, 49, 50, 10] out flushes fault after.sink)) := by
  obtain ⟨line, out, flushes, fault, after, renders, stepped, -, -, outcome, -⟩ :=
    print_outcome balking (.println (.bytes [97, 98])) (by simp [Printing.arguments, find?])
  obtain ⟨number, out', flushes', fault', after', renders', stepped', -, -, outcome', -⟩ :=
    print_outcome unflushed (.printNumber (.bytes [110]) (-12))
      (by simp [Printing.arguments, find?])
  have line_rendered : balking.Renders (.println (.bytes [97, 98])) [97, 98, 10] := by
    have rendered := Renders.println (rfl : balking.find? (.bytes [97, 98]) = some _)
    exact rendered
  have number_rendered :
      unflushed.Renders (.printNumber (.bytes [110]) (-12)) [110, 45, 49, 50, 10] := by
    have canonical : minusTwelve.IsCanonical := ⟨by decide, by decide, by decide⟩
    have value : minusTwelve.value = (-12 : Int64).toInt := by decide
    have rendered :=
      Renders.printNumber (rfl : unflushed.find? (.bytes [110]) = some _) canonical value
    exact rendered
  obtain rfl := (renders _).mp line_rendered
  obtain rfl := (renders' _).mp number_rendered
  exact ⟨by decide +kernel, ⟨out, flushes, fault, after, stepped, outcome⟩, by decide +kernel,
    ⟨out', flushes', fault', after', stepped', outcome'⟩⟩

end Session

end Console
