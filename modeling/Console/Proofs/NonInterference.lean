import Console.Proofs.Tracking
import Console.Session

/-!
# Input and output do not interfere

Of a session, what is read depends on the source alone. The commands that
print may be left out, and the sink may be any other. What is printed depends
on the sink and on the texts that are named, not on how they came to be read.

A program does not notice that its output is broken. Calls return what they
would return, or halt where they would halt, and each call that fails to print
gives one notice more.
-/
namespace Console

namespace Printing

variable {α β : Type}

/-- Only the texts that are named are looked for. -/
theorem mapM_congr (printing : Printing α) (find other : α → Option β)
    (same : ∀ argument ∈ printing.arguments, find argument = other argument) :
    printing.mapM find = printing.mapM other := by
  cases printing with
  | print text | println text | printNumber text number =>
    simp only [mapM, same text List.mem_cons_self]
  | printPair first second =>
    simp only [mapM, same first List.mem_cons_self,
      same second (List.mem_cons_of_mem _ List.mem_cons_self)]

/-- An operation keeps its name when its texts are found. -/
theorem name_of_mapM (printing : Printing α) (find : α → Option β) (found : Printing β)
    (all : printing.mapM find = some found) : found.name = printing.name := by
  cases printing with
  | print text | println text | printNumber text number =>
    cases known : find text <;> simp [mapM, known] at all
    rw [← all]
    rfl
  | printPair first second =>
    cases known : find first <;> cases known' : find second <;> simp [mapM, known, known'] at all
    rw [← all]
    rfl

end Printing

namespace Session

def Command.isRead : Command → Bool
  | .read _ => true
  | .print _ => false

def Answer.isRead : Answer → Bool
  | .read _ _ => true
  | .printed _ _ _ | .noText => false

def Argument.slot? : Argument → Option Nat
  | .bytes _ => none
  | .slot index => some index

/-- The slots whose texts a command prints. -/
def Command.slots : Command → List Nat
  | .read _ => []
  | .print printing => printing.arguments.filterMap Argument.slot?

/-- Printing leaves alone what is to be read and what was read. -/
theorem step_print_frame (session : Session) (printing : Printing Argument) :
    (session.step (.print printing)).1.isRead = false ∧
      (session.step (.print printing)).2.source = session.source ∧
      (session.step (.print printing)).2.slots = session.slots := by
  unfold step
  dsimp only
  split <;> exact ⟨rfl, rfl, rfl⟩

/-! ## What is read -/

/-- Reads are answered as if there were no other commands. -/
theorem run_filter_reads (first second : Session) (same : first.source = second.source)
    (commands : List Command) :
    (first.run (commands.filter Command.isRead)).1 =
        (second.run commands).1.filter Answer.isRead ∧
      (first.run (commands.filter Command.isRead)).2.source =
        (second.run commands).2.source := by
  induction commands generalizing first second with
  | nil => exact ⟨rfl, same⟩
  | cons command rest ih =>
    cases command with
    | read extent =>
      obtain ⟨answers, source⟩ := ih (first.step (.read extent)).2 (second.step (.read extent)).2
        (by simp only [step, same])
      refine ⟨?_, source⟩
      have answered : (first.step (.read extent)).1 = (second.step (.read extent)).1 := by
        simp only [step, same]
      simp only [List.filter_cons, Command.isRead, if_true, run, answered, answers]
      rfl
    | print printing =>
      -- this step is made in one of the two sessions only
      obtain ⟨other, source, -⟩ := second.step_print_frame printing
      obtain ⟨answers, left⟩ := ih first (second.step (.print printing)).2 (same.trans source.symm)
      refine ⟨?_, left⟩
      simp only [List.filter_cons, Command.isRead, run, other]
      exact answers

/-- Each read is answered alike wherever its source is the same. -/
theorem run_reads_at (first second : Session) (same : first.source = second.source)
    (commands : List Command) (index : Nat) (extent : Extent)
    (found : commands[index]? = some (.read extent)) :
    (first.run commands).1[index]? = (second.run commands).1[index]? := by
  induction commands generalizing first second index with
  | nil => nomatch found
  | cons command rest ih =>
    -- whatever the command is, it leaves the two sources alike
    have next : (first.step command).2.source = (second.step command).2.source := by
      cases command with
      | read extent => simp only [step, same]
      | print printing =>
        rw [(first.step_print_frame printing).2.1, (second.step_print_frame printing).2.1, same]
    cases index with
    | zero =>
      cases found
      simp only [run, List.getElem?_cons_zero, step, same]
    | succ index => exact ih _ _ next index found

/-! ## What is printed -/

/-- What was read stays in its slot. -/
theorem slots_run (session : Session) (commands : List Command) (index : Nat)
    (filled : index < session.slots.size) :
    (session.run commands).2.slots[index]? = session.slots[index]? := by
  induction commands generalizing session with
  | nil => rfl
  | cons command rest ih =>
    cases command with
    | read extent =>
      have grown : (session.step (.read extent)).2.slots =
          session.slots.push (session.source.read extent).text := rfl
      refine (ih (session.step (.read extent)).2 (by rw [grown, Array.size_push]; omega)).trans ?_
      rw [grown, Array.getElem?_push_lt filled, Array.getElem?_eq_getElem filled]
    | print printing =>
      obtain ⟨-, -, kept⟩ := session.step_print_frame printing
      refine (ih (session.step (.print printing)).2 (by rw [kept]; exact filled)).trans ?_
      rw [kept]

/-- A slot that holds the same text in the end held the same all the time. -/
theorem find?_of_alike (first second : Session) (size : first.slots.size = second.slots.size)
    (commands : List Command) (slot : Nat)
    (alike : (first.run commands).2.slots[slot]?.join = (second.run commands).2.slots[slot]?.join) :
    first.find? (.slot slot) = second.find? (.slot slot) := by
  by_cases filled : slot < first.slots.size
  · rw [first.slots_run commands slot filled, second.slots_run commands slot (by omega)] at alike
    exact alike
  · -- it is filled later in both, and leads nowhere as yet
    rw [find?, find?, Array.getElem?_eq_none (by omega), Array.getElem?_eq_none (by omega)]

/-- An operation is printed alike where the texts it names and the sink are the same. -/
theorem step_print_congr (first second : Session) (sink : first.sink = second.sink)
    (printing : Printing Argument)
    (alike : ∀ argument ∈ printing.arguments, first.find? argument = second.find? argument) :
    (first.step (.print printing)).1 = (second.step (.print printing)).1 ∧
      (first.step (.print printing)).2.sink = (second.step (.print printing)).2.sink := by
  have found := printing.mapM_congr first.find? second.find? alike
  unfold step
  simp only [found]
  cases printing.mapM second.find? with
  | none => exact ⟨rfl, sink⟩
  | some resolved => simp only [sink, and_self]

/-- Two sessions print alike if they have the same sink and as many slots filled, and the
slots that are named hold the same in the end. -/
theorem run_prints_at (first second : Session) (sink : first.sink = second.sink)
    (size : first.slots.size = second.slots.size) (commands : List Command)
    (alike : ∀ command ∈ commands, ∀ slot ∈ command.slots,
      (first.run commands).2.slots[slot]?.join = (second.run commands).2.slots[slot]?.join)
    (index : Nat) (printing : Printing Argument)
    (found : commands[index]? = some (.print printing)) :
    (first.run commands).1[index]? = (second.run commands).1[index]? := by
  induction commands generalizing first second index with
  | nil => nomatch found
  | cons command rest ih =>
    obtain ⟨here, later⟩ := List.forall_mem_cons.mp alike
    cases command with
    | read extent =>
      cases index with
      | zero => nomatch found
      | succ index =>
        refine ih (first.step (.read extent)).2 (second.step (.read extent)).2 sink ?_ later index
          found
        simp only [step, Array.size_push, size]
    | print current =>
      -- the slots it names hold the same in the end, so they do now
      have named (argument : Argument) (member : argument ∈ current.arguments) :
          first.find? argument = second.find? argument := by
        cases argument with
        | bytes bytes => rfl
        | slot slot =>
          have among : slot ∈ (Command.print current).slots :=
            List.mem_filterMap.mpr ⟨.slot slot, member, rfl⟩
          exact find?_of_alike first second size _ slot (here slot among)
      obtain ⟨answered, sinks⟩ := step_print_congr first second sink current named
      cases index with
      | zero => simp only [run, List.getElem?_cons_zero, answered]
      | succ index =>
        refine ih (first.step (.print current)).2 (second.step (.print current)).2 sinks ?_ later
          index found
        rw [(first.step_print_frame current).2.2, (second.step_print_frame current).2.2, size]

end Session

namespace Script

/-- What the answer to a call on a broken output has in common with the one on a working
output. If the call prints, one notice may tell that its operation failed. -/
structure Answer.Muted (call : Call) (failing working : Answer) : Prop where
  out : failing.out = []
  log : failing.log = working.log ∨
    ∃ printing fault, call.printing? = some printing ∧ working.log = [] ∧
      failing.log = [.notPrinted printing.name fault]
  result : failing.result = working.result

/-- The same for calls made one after the other. Those after a halt have no answers. -/
inductive Muted : List Call → List Answer → List Answer → Prop
  | nil (calls : List Call) : Muted calls [] []
  | cons {call : Call} {calls : List Call} {failing working : Answer}
      {failings workings : List Answer} (first : failing.Muted call working)
      (later : Muted calls failings workings) :
      Muted (call :: calls) (failing :: failings) (working :: workings)

namespace Ledger

/-- A broken output stays broken. -/
theorem broken_effect (ledger : Ledger) (output : Output) (call : Call) (fault : Fault)
    (broken : output.fault = some fault) :
    (ledger.effect output call).2.fault = some fault ∧
      (ledger.effect output call).2.accepted = output.accepted := by
  rw [effect]
  cases ledger.printing? call with
  | none => exact ⟨broken, rfl⟩
  | some printing => exact output.print_of_broken printing fault broken

theorem reply_muted (ledger : Ledger) (failing working : Output) (call : Call) (fault : Fault)
    (broken : failing.fault = some fault) (ready : working.Ready) :
    (ledger.reply failing call).Muted call (ledger.reply working call) where
  out := by
    rw [reply, (ledger.broken_effect failing call fault broken).2]
    simp [bytesSince]
  log := by
    simp only [reply, effect]
    cases prints : ledger.printing? call with
    | none => exact Or.inl rfl
    | some printing =>
      -- the notice names the operation that was asked for, whatever its texts
      obtain ⟨named, asked, found⟩ := Option.bind_eq_some_iff.mp prints
      simp only [working.print_of_working printing ready.working ready.free]
      cases (failing.print printing).1 with
      | none => exact Or.inl rfl
      | some met =>
        rw [named.name_of_mapM ledger.text? printing found]
        exact Or.inr ⟨named, met, asked, rfl, rfl⟩
  result := rfl

/-- Whether its output is broken or works, a program is answered alike. -/
theorem replies_muted (ledger : Ledger) (failing working : Output) (calls : List Call)
    (fault : Fault) (broken : failing.fault = some fault) (ready : working.Ready) :
    Muted calls (ledger.replies failing calls) (ledger.replies working calls) := by
  induction calls generalizing ledger failing working with
  | nil => exact .nil []
  | cons call rest ih =>
    -- rules and nulls are a matter of the ledger, which both have
    rw [replies, replies]
    split
    · split
      · exact .cons ⟨rfl, Or.inl rfl, rfl⟩ (.nil rest)
      · exact .cons (ledger.reply_muted failing working call fault broken ready)
          (ih _ _ _ (ledger.broken_effect failing call fault broken).1
            (ledger.ready_effect working call ready))
    · exact .cons ⟨rfl, Or.inl rfl, rfl⟩ (.nil rest)

end Ledger
end Script

/-- In a session, reads are answered the same and leave the same source when the
commands that print are left out and when the sink is another one. Printing is answered
the same from any source that puts the same texts in the slots that are named. A
program with a broken output gets the same results as with a working one, nothing comes
out, and only a call that prints may give a notice more, of its own operation. -/
theorem input_and_output_apart (source otherSource : Source) (sink otherSink : Sink)
    (slots : Array (Option Text)) (commands : List Session.Command) (input : Input)
    (fault : Fault) (calls : List Script.Call) :
    (let whole := Session.run { source, sink, slots } commands
     let reads := Session.run { source, sink := otherSink, slots }
       (commands.filter Session.Command.isRead)
     let other := Session.run { source, sink := otherSink, slots } commands
     reads.1 = whole.1.filter Session.Answer.isRead ∧ reads.2.source = whole.2.source ∧
       (∀ (index : Nat) extent, commands[index]? = some (.read extent) →
         other.1[index]? = whole.1[index]?) ∧
       other.2.source = whole.2.source) ∧
    (let whole := Session.run { source, sink, slots } commands
     let other := Session.run { source := otherSource, sink, slots } commands
     (∀ command ∈ commands, ∀ slot ∈ command.slots,
       other.2.slots[slot]?.join = whole.2.slots[slot]?.join) →
     ∀ (index : Nat) printing, commands[index]? = some (.print printing) →
       other.1[index]? = whole.1[index]?) ∧
    Script.Muted calls
      (Script.run { input, output := { fault := some fault } } #[] calls)
      (Script.run { input } #[] calls) := by
  refine ⟨?_, ?_, ?_⟩
  · intro whole reads other
    have deleted := Session.run_filter_reads { source, sink := otherSink, slots }
      { source, sink, slots } rfl commands
    have replaced := Session.run_filter_reads { source, sink := otherSink, slots }
      { source, sink := otherSink, slots } rfl commands
    refine ⟨deleted.1, deleted.2, ?_, replaced.2.symm.trans deleted.2⟩
    intro index extent found
    exact Session.run_reads_at { source, sink := otherSink, slots } { source, sink, slots } rfl
      commands index extent found
  · intro whole other alike index printing found
    exact Session.run_prints_at { source := otherSource, sink, slots } { source, sink, slots } rfl
      rfl commands alike index printing found
  · rw [Script.run_eq_replies_of_start, Script.run_eq_replies_of_start]
    exact Script.Ledger.replies_muted _ _ _ calls fault rfl ⟨rfl, rfl⟩

/-- A line is read and printed twice, with another read between. -/
def mixedCommands : List Session.Command :=
  [.read .line, .print (.println (.slot 0)), .read .character,
    .print (.printPair (.bytes [33]) (.slot 0))]

/-- Two sources with the same first line, and nothing else in common. -/
def firstLineAlike : Source × Source :=
  ({ pending := [.data [97, 10, 98]] }, { pending := [.data [97], .data [13], .data [99, 10]] })

/-- A line is read, printed and measured. -/
def echoCalls : List Script.Call := [.read .line, .println (.slot 0), .textLength (.slot 0)]

theorem input_and_output_apart_of_firstLineAlike :
    let sink : Sink := { refusals := [(1, .nothing)], flushFaults := [(0, ⟨.brokenPipe, "gone"⟩)] }
    let whole := Session.run { source := firstLineAlike.1, sink } mixedCommands
    let other := Session.run { source := firstLineAlike.2, sink } mixedCommands
    let gone : Fault := ⟨.brokenPipe, "gone"⟩
    let input := Input.working firstLineAlike.1
    let failing := Script.run { input, output := { fault := some gone } } #[] echoCalls
    (∀ command ∈ mixedCommands, ∀ slot ∈ command.slots,
      other.2.slots[slot]?.join = whole.2.slots[slot]?.join) ∧
      other.1[2]? ≠ whole.1[2]? ∧
      other.1[1]? = some (.printed [97] 0 (some .nothingTaken)) ∧
      other.1[1]? = whole.1[1]? ∧ other.1[3]? = whole.1[3]? ∧
      failing = [⟨[], [.lineRead 1 128], .text (some (Text.ofBytes [97]))⟩,
        ⟨[], [.notPrinted "println" gone], .done⟩, ⟨[], [], .length 1⟩] ∧
      Script.Muted echoCalls failing (Script.run { input } #[] echoCalls) := by
  intro sink whole other gone input failing
  have alike : ∀ command ∈ mixedCommands, ∀ slot ∈ command.slots,
      other.2.slots[slot]?.join = whole.2.slots[slot]?.join := by
    decide +kernel
  obtain ⟨-, printed, muted⟩ := input_and_output_apart firstLineAlike.1 firstLineAlike.2 sink {}
    #[] mixedCommands input gone echoCalls
  exact ⟨alike, by decide +kernel, by decide +kernel, printed alike 1 _ rfl,
    printed alike 3 _ rfl, by decide +kernel, muted⟩

end Console
