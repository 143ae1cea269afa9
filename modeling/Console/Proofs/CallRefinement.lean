import Console.Proofs.DeliveryIndependence
import Console.Proofs.Pieces
import Console.Proofs.Splitting
import Console.Proofs.Tracking

/-!
# Calls come to commands

A program that calls by addresses might as well give commands to a session. A
read is a read, and what is printed is printed with the texts as they are at
that time. The other calls have no counterpart and nothing of them is seen.

Input may be delivered to the two in different pieces. What they answer is the
same, call by call, and so are the notices of every read.
-/
namespace Console

theorem Signal.ofBytes_bytes (signals : List Signal)
    (steady : ∀ fault, .stop fault ∉ signals) : ofBytes (bytes signals) = signals := by
  induction signals with
  | nil => rfl
  | cons signal later ih =>
    cases signal with
    | stop fault => exact absurd List.mem_cons_self (steady fault)
    | byte value =>
      rw [bytes_byte, ofBytes_cons, ih fun fault member =>
        steady fault (List.mem_cons_of_mem _ member)]

/-- A line is empty if it is blank or begins with a zero. -/
private theorem line_eq_empty_iff (content more : Bytes)
    (isOpen : ∀ byte ∈ content, endsLine byte = false)
    (ended : content = [] → ∃ byte ∈ more.head?, endsLine byte = true) :
    Text.ofBytes content = Text.empty ↔
      ∃ byte ∈ (content ++ more).head?, byte = 0 ∨ endsLine byte = true := by
  cases content with
  | nil =>
    obtain ⟨last, first, ends⟩ := ended rfl
    exact iff_of_true rfl ⟨last, first, Or.inr ends⟩
  | cons first rest =>
    have inside := isOpen first List.mem_cons_self
    simp [Text.ofBytes_eq_empty_iff, inside]

namespace Source

/-- A reader meets the bytes that are delivered and nothing else. -/
theorem Delivers.signals_eq {source : Source} {bytes : Bytes} (delivers : source.Delivers bytes) :
    source.signals = Signal.ofBytes bytes := by
  rw [← Signal.ofBytes_bytes source.signals delivers.isSteady, bytes_signals, delivers.unread_eq]

/-- Without stops a read gives no text only at the end of input, and an empty text only
for a zero or a blank line. -/
theorem text_read_of_steady (source : Source) (steady : source.Steady) (extent : Extent) :
    ((source.read extent).text = none ↔ source.unread = []) ∧
      ((source.read extent).text = some Text.empty ↔
        ∃ byte ∈ source.unread.head?, byte = 0 ∨ extent = .line ∧ endsLine byte = true) := by
  have unread := bytes_signals source
  rw [text_read]
  cases extent with
  | character =>
    rcases Passage.character_cases source.signals with
      ⟨finished, passed⟩ | ⟨fault, later, stopped, passed⟩ | ⟨value, later, met, passed⟩
    · rw [finished] at unread
      simp [Passage.read, passed, ← unread]
    · exact absurd (by simp [stopped]) (steady fault)
    · rw [met] at unread
      simp [Passage.read, passed, ← unread, Text.ofBytes_eq_empty_iff]
  | line =>
    have isOpen := Signal.endsLine_of_mem_content source.signals
    simp only [Passage.read, true_and]
    have completed (last : UInt8) (ends : endsLine last = true) (later : List Signal)
        (met : source.signals = Signal.ofBytes (Signal.content source.signals ++ [last]) ++ later)
        (log : List Notice) (rest : List Signal) :
        let passage :=
          Passage.complete (Signal.content source.signals) source.lineCapacity log rest
        (passage.text = none ↔ source.unread = []) ∧
          (passage.text = some Text.empty ↔
            ∃ byte ∈ source.unread.head?, byte = 0 ∨ endsLine byte = true) := by
      have whole : source.unread =
          Signal.content source.signals ++ last :: Signal.bytes later := by
        rw [← unread]
        simpa using congrArg Signal.bytes met
      rw [whole]
      simpa [Passage.complete] using
        line_eq_empty_iff _ (last :: Signal.bytes later) isOpen fun _ => ⟨last, rfl, ends⟩
    rcases Passage.line_cases source.lineCapacity source.signals with
      ⟨all, passed⟩ | ⟨fault, later, stopped, passed⟩ | ⟨later, met, passed⟩ | ⟨later, met, passed⟩
    · -- the last line has no end, and there is one if it has begun
      have whole : source.unread = Signal.content source.signals := by
        simpa using congrArg Signal.bytes all
      rw [passed, Passage.conclude, whole]
      split
      next blank => simp [List.isEmpty_iff.mp blank]
      next begun =>
        have some_content : Signal.content source.signals ≠ [] := by simpa using begun
        have empty := line_eq_empty_iff _ [] isOpen (absurd · some_content)
        rw [List.append_nil] at empty
        simpa [Passage.complete, some_content] using empty
    · exact absurd (by rw [stopped]; simp) (steady fault)
    · rw [passed]
      exact completed lineFeed rfl later met [] later
    · rw [passed]
      exact completed carriageReturn rfl later met _ _

end Source

/-! ## Commands -/

/-- A sink without faults takes all that is printed and is flushed once. -/
theorem Sink.print_of_clear (sink : Sink) (refusals : sink.refusals = [])
    (flushFaults : sink.flushFaults = []) (printing : Printing Text) :
    sink.print printing =
      (none, { sink.accept printing.rendering with flushes := sink.flushes + 1 }) := by
  have admits : sink.Admits printing.rendering := by
    intro entry next
    simp [refusals] at next
  have written : sink.writePieces printing.pieces = (none, sink.accept printing.rendering) := by
    have taken := writeAll_of_admits sink printing.rendering [] admits
    rw [List.append_nil, writeAll_nil] at taken
    rw [writePieces_eq_writeAll]
    exact taken
  simp [print, emit, written, flush, accept, flushFaults]

/-- A printing operation with its texts given by their bytes. -/
def Printing.quoted : Printing Text → Printing Session.Argument
  | .print text => .print (.bytes text.content)
  | .println text => .println (.bytes text.content)
  | .printNumber text number => .printNumber (.bytes text.content) number
  | .printPair first second => .printPair (.bytes first.content) (.bytes second.content)

theorem Printing.mapM_quoted (printing : Printing Text) (session : Session) :
    printing.quoted.mapM session.find? = some printing := by
  cases printing <;> simp [quoted, mapM, Session.find?, Text.ofBytes_content]

namespace Script

/-- Reads and printing operations have a counterpart in a session. -/
def Call.hasCounterpart : Call → Bool
  | .read _ | .print _ | .println _ | .printNumber _ _ | .printPair _ _ | .printInteger _ => true
  | .textLength _ | .free _ | .poke _ _ _ | .peek _ => false

namespace Ledger

/-- The command that a call comes to. What is printed are the texts as they are now. -/
def command? (ledger : Ledger) : Call → Option Session.Command
  | .read extent => some (.read extent)
  | call => (ledger.printing? call).map fun printing => .print printing.quoted

/-- The commands that calls come to, if they all return. -/
def commands (ledger : Ledger) : List Call → List Session.Command
  | [] => []
  | call :: rest => (ledger.command? call).toList ++ (ledger.after call).commands rest

end Ledger

/-- What a command answers, as a call would; a fault or a missing text has no place. -/
def Answer.ofSession? : Session.Answer → Option Answer
  | .read text log => some { out := [], log, result := .text text }
  | .printed out _ none => some { out, log := [], result := .done }
  | .printed _ _ (some _) | .noText => none

/-- The answers to those calls that have a counterpart. -/
def counterparts (calls : List Call) (answers : List Answer) : List Answer :=
  (calls.zip answers).filterMap fun made => if made.1.hasCounterpart then some made.2 else none

theorem counterparts_cons (call : Call) (calls : List Call) (answer : Answer)
    (answers : List Answer) :
    counterparts (call :: calls) (answer :: answers) =
      if call.hasCounterpart then answer :: counterparts calls answers
      else counterparts calls answers := by
  rw [counterparts, List.zip_cons_cons, List.filterMap_cons]
  cases call.hasCounterpart <;> rfl

/-! ## Call by call -/

/-- A ledger and a session have the same to come, and no output is at fault. -/
structure Agrees (ledger : Ledger) (output : Output) (session : Session) : Prop where
  signals : ∃ stdin : Source, ledger.input = .working stdin ∧
    stdin.signals = session.source.signals
  ready : output.Ready
  refusals : session.sink.refusals = []
  flushFaults : session.sink.flushFaults = []

namespace Agrees

variable {ledger : Ledger} {output : Output} {session : Session}

/-- A call without a counterpart changes nothing that the session has a part in. -/
theorem quiet (agrees : Agrees ledger output session) (call : Call)
    (alone : call.hasCounterpart = false) :
    ledger.command? call = none ∧
      Agrees (ledger.after call) (ledger.effect output call).2 session := by
  obtain ⟨signals, ready, refusals, flushFaults⟩ := agrees
  cases call with
  | read extent | print text | println text | printNumber text number | printPair first second
  | printInteger number => nomatch alone
  | textLength text | peek text => exact ⟨rfl, signals, ready, refusals, flushFaults⟩
  | free text | poke text offset byte =>
    refine ⟨rfl, ?_, ready, refusals, flushFaults⟩
    rw [Ledger.after, ledger.input_update]
    exact signals

/-- A read meets the same signals in both. -/
theorem read (agrees : Agrees ledger output session) (extent : Extent) :
    Answer.ofSession? (session.step (.read extent)).1 =
        some (ledger.reply output (.read extent)) ∧
      Agrees (ledger.after (.read extent)) (ledger.effect output (.read extent)).2
        (session.step (.read extent)).2 := by
  obtain ⟨⟨stdin, input, alike⟩, ready, refusals, flushFaults⟩ := agrees
  -- the passage of a read tells its text, its notices and what is left
  have passed := Source.passage_read_congr stdin session.source alike extent
  have text : (stdin.read extent).text = (session.source.read extent).text :=
    congrArg Passage.text passed
  have log : (stdin.read extent).log = (session.source.read extent).log :=
    congrArg Passage.log passed
  constructor
  · rw [ledger.reply_of_read]
    simp [Answer.ofSession?, Session.step, Input.read, input, text, log]
  · refine ⟨⟨(stdin.read extent).source, ?_, congrArg Passage.rest passed⟩, ready, refusals,
      flushFaults⟩
    simp [Ledger.after, input, Input.read]

/-- What is printed comes out in both, and all of it. -/
theorem print (agrees : Agrees ledger output session) (call : Call) (printing : Printing Text)
    (found : ledger.printing? call = some printing) :
    Answer.ofSession? (session.step (.print printing.quoted)).1 =
        some (ledger.reply output call) ∧
      Agrees (ledger.after call) (ledger.effect output call).2
        (session.step (.print printing.quoted)).2 := by
  obtain ⟨signals, ready, refusals, flushFaults⟩ := agrees
  have printed := session.sink.print_of_clear refusals flushFaults printing
  have stepped : session.step (.print printing.quoted) =
      (.printed printing.rendering 1 none, { session with
        sink := { session.sink.accept printing.rendering with
          flushes := session.sink.flushes + 1 } }) := by
    simp only [Session.step, printing.mapM_quoted session, printed]
    rw [bytesSince_of_append session.sink.accepted _ printing.rendering (by simp)]
    simp
  rw [stepped, ledger.reply_of_printing output call printing ready found,
    (ledger.frame_of_prints call (ledger.prints_of_printing call printing found)).1]
  exact ⟨rfl, signals, ledger.ready_effect output call ready, refusals, flushFaults⟩

/-- A call that returns is one command to the session, or nothing to it. -/
theorem step (agrees : Agrees ledger output session) (call : Call)
    (permitted : ledger.permits call = true) (returns : ledger.isFatal call = false) :
    (call.hasCounterpart = false ∧ ledger.command? call = none ∧
      Agrees (ledger.after call) (ledger.effect output call).2 session) ∨
    ∃ command, call.hasCounterpart = true ∧ ledger.command? call = some command ∧
      Answer.ofSession? (session.step command).1 = some (ledger.reply output call) ∧
      Agrees (ledger.after call) (ledger.effect output call).2 (session.step command).2 := by
  cases call with
  | read extent => exact Or.inr ⟨.read extent, rfl, rfl, agrees.read extent⟩
  | print text | println text | printNumber text number | printPair first second
  | printInteger number =>
    obtain ⟨printing, found⟩ := ledger.printing?_of_permitted _ rfl permitted returns
    refine Or.inr ⟨.print printing.quoted, rfl, ?_, agrees.print _ printing found⟩
    simp only [Ledger.command?, found, Option.map_some]
  | textLength text | free text | poke text offset byte | peek text =>
    exact Or.inl ⟨rfl, agrees.quiet _ rfl⟩

/-- Calls that all return are answered as the session answers their commands. -/
theorem run (agrees : Agrees ledger output session) (calls : List Call)
    (lawful : ledger.lawful calls = true) (harmless : ledger.harmless calls = true) :
    (counterparts calls (ledger.replies output calls)).map some =
      (session.run (ledger.commands calls)).1.map Answer.ofSession? := by
  induction calls generalizing ledger output session with
  | nil => rfl
  | cons call rest ih =>
    obtain ⟨⟨permitted, returns⟩, lawful, harmless⟩ :=
      ledger.returns_of_cons call rest lawful harmless
    rw [ledger.replies_of_returns output call rest permitted returns, counterparts_cons,
      Ledger.commands]
    -- the session stands still or makes one step
    rcases agrees.step call permitted returns with
      ⟨alone, nothing, next⟩ | ⟨command, counterpart, known, answered, next⟩
    · rw [alone, nothing]
      exact ih next lawful harmless
    · rw [counterpart, known]
      simp only [if_true, List.map_cons, Option.toList_some, List.singleton_append, Session.run,
        answered, ih next lawful harmless]

end Agrees

/-- What calls without a counterpart answer shows neither output nor notices. -/
theorem quiet_of_alone (ledger : Ledger) (output : Output) (calls : List Call)
    (lawful : ledger.lawful calls = true) (harmless : ledger.harmless calls = true) :
    ∀ made ∈ calls.zip (ledger.replies output calls), made.1.hasCounterpart = false →
      made.2.out = [] ∧ made.2.log = [] := by
  induction calls generalizing ledger output with
  | nil => simp
  | cons call rest ih =>
    obtain ⟨⟨permitted, returns⟩, lawful, harmless⟩ :=
      ledger.returns_of_cons call rest lawful harmless
    rw [ledger.replies_of_returns output call rest permitted returns, List.zip_cons_cons]
    intro made member alone
    rcases List.mem_cons.mp member with rfl | later
    · cases call with
      | read extent | print text | println text | printNumber text number | printPair first second
      | printInteger number => nomatch alone
      | textLength text | free text | poke text offset byte | peek text =>
        rw [ledger.reply_of_quiet output _ rfl rfl]
        exact ⟨rfl, rfl⟩
    · exact ih _ _ lawful harmless made later alone

/-- An input without stops goes on without stops. -/
theorem Ledger.steady_reached (ledger : Ledger) (calls : List Call) (stdin : Source)
    (input : ledger.input = .working stdin) (steady : stdin.Steady) :
    ∃ source, (ledger.reached calls).input = .working source ∧ source.Steady := by
  induction calls generalizing ledger stdin with
  | nil => exact ⟨stdin, input, steady⟩
  | cons call rest ih =>
    cases call with
    | read extent =>
      refine ih (ledger.after (.read extent)) (stdin.read extent).source ?_
        (stdin.steady_read steady extent)
      simp [after, input, Input.read]
    | free text | poke text offset byte =>
      exact ih _ stdin ((ledger.input_update _ _).trans input) steady
    | print text | println text | printNumber text number | printPair first second
    | printInteger number | textLength text | peek text => exact ih _ stdin input steady

/-- A program whose input and output do not fail, that never passes null for a text
and keeps the rules on memory, is answered like a session that is given its commands,
however input is delivered to the one and to the other. Null stands for the end of
input, and an empty text for a zero or a blank line. The length of a text is the
number of bytes before its terminator. -/
theorem calls_refine_session (bytes : Bytes) (stdin source : Source) (portion : Option Portion)
    (calls : List Call) (here : stdin.Delivers bytes) (there : source.Delivers bytes)
    (keeps : KeepsRules (.working stdin) {} calls)
    (harmless : ({ input := .working stdin } : Ledger).harmless calls = true) :
    let ledger : Ledger := { input := .working stdin }
    let answers := run { input := .working stdin } #[] calls
    let session : Session := { source, sink := { portion } }
    answers.length = calls.length ∧
    (counterparts calls answers).map some =
      (session.run (ledger.commands calls)).1.map Answer.ofSession? ∧
    (∀ made ∈ calls.zip answers, made.1.hasCounterpart = false →
      made.2.out = [] ∧ made.2.log = []) ∧
    (∀ before operand after, calls = before ++ .textLength operand :: after →
      ∃ text, (ledger.reached before).text? operand = some text ∧ answers[before.length]? =
        some { out := [], log := [], result := .length (lengthBeforeZero text.terminated) }) ∧
    (∀ before extent after, calls = before ++ .read extent :: after →
      ∃ read log, answers[before.length]? = some { out := [], log, result := .text read } ∧
        (read = none ↔ (ledger.reached before).input.unread = []) ∧
        (read = some Text.empty ↔ ∃ byte ∈ (ledger.reached before).input.unread.head?,
          byte = 0 ∨ extent = .line ∧ endsLine byte = true)) := by
  intro ledger answers session
  have lawful : ledger.lawful calls = true := (keepsRules_iff_lawful _ {} calls).mp keeps
  have told : answers = ledger.replies {} calls := run_eq_replies_of_start (.working stdin) {} calls
  have agrees : Agrees ledger {} session :=
    ⟨⟨stdin, rfl, here.signals_eq.trans there.signals_eq.symm⟩, ⟨rfl, rfl⟩, rfl, rfl⟩
  rw [told]
  refine ⟨ledger.length_replies {} calls lawful harmless, agrees.run calls lawful harmless,
    quiet_of_alone ledger {} calls lawful harmless, ?_, ?_⟩
  · rintro before operand after rfl
    obtain ⟨⟨allowed, unharmed⟩, permitted, returns⟩ :=
      ledger.returns_of_append before after _ lawful harmless
    obtain ⟨text, found⟩ := Ledger.text?_of_isUsable _ operand permitted returns
    refine ⟨text, found, ?_⟩
    rw [ledger.getElem?_replies {} before after _ allowed unharmed permitted returns,
      Ledger.reply_of_quiet _ _ _ rfl rfl, Ledger.result, found, Text.lengthBeforeZero_terminated]
    rfl
  · rintro before extent after rfl
    obtain ⟨⟨allowed, unharmed⟩, permitted, returns⟩ :=
      ledger.returns_of_append before after _ lawful harmless
    obtain ⟨current, input, steady⟩ := ledger.steady_reached before stdin rfl here.isSteady
    refine ⟨(current.read extent).text, (current.read extent).log, ?_, ?_⟩
    · rw [ledger.getElem?_replies {} before after _ allowed unharmed permitted returns,
        Ledger.reply_of_read, input]
      rfl
    · rw [input]
      exact current.text_read_of_steady steady extent

/-- A line and a zero, in pieces of one byte and with an interruption. -/
def lineInPieces : Source where
  window := some ⟨1, Nat.one_pos⟩
  pending := [.data [97], .failure ⟨.interrupted, "again"⟩, .data [98, 10], .data [0]]

/-- A line is read, written to, printed and released, and input is read to its end. -/
def lineCalls : List Call :=
  [.read .line, .poke (.slot 0) 0 120, .println (.slot 0), .printInteger (-7), .textLength (.slot 0),
    .free (.slot 0), .read .character, .printPair (.slot 1) (.bytes [33]), .read .line]

theorem calls_refine_session_of_lineInPieces :
    let stdin := Source.ofBytes [97, 98, 10, 0]
    let ledger : Ledger := { input := .working stdin }
    let answers := run { input := .working stdin } #[] lineCalls
    let session : Session := { source := lineInPieces, sink := { portion := some ⟨2, Nat.two_pos⟩ } }
    stdin.Delivers [97, 98, 10, 0] ∧ lineInPieces.Delivers [97, 98, 10, 0] ∧
      KeepsRules (.working stdin) {} lineCalls ∧ ledger.harmless lineCalls = true ∧
      counterparts lineCalls answers = [
        ⟨[], [.lineRead 2 128], .text (some (Text.ofBytes [97, 98]))⟩, ⟨[120, 98, 10], [], .done⟩,
        ⟨[45, 55, 10], [], .done⟩, ⟨[], [.characterRead 0], .text (some Text.empty)⟩,
        ⟨[33, 10], [], .done⟩, ⟨[], [.noLine], .text none⟩] ∧
      (counterparts lineCalls answers).map some =
        (session.run (ledger.commands lineCalls)).1.map Answer.ofSession? := by
  intro stdin ledger answers session
  have here : stdin.Delivers [97, 98, 10, 0] := ⟨rfl, nofun⟩
  have there : lineInPieces.Delivers [97, 98, 10, 0] := ⟨rfl, by decide⟩
  have keeps : KeepsRules (.working stdin) {} lineCalls := by decide +kernel
  have harmless : ledger.harmless lineCalls = true := by decide +kernel
  refine ⟨here, there, keeps, harmless, by decide +kernel, ?_⟩
  exact (calls_refine_session _ stdin lineInPieces (some ⟨2, Nat.two_pos⟩) lineCalls here there keeps
    harmless).2.1

end Script
end Console
