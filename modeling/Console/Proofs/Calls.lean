import Console.Machine.Call

/-!
# What calls do on a machine in order

As long as standard output works and texts are where their addresses say, every
call returns. This module says what it returns and what it changes, one lemma
for each call, so that programs made of calls need not be taken apart.
-/
namespace Console

namespace Output

/-- An output that works and holds nothing back. -/
structure Ready (output : Output) : Prop where
  working : output.fault = none
  free : output.held = []

/-- An output after bytes have come out. -/
def accept (output : Output) (bytes : Bytes) : Output :=
  { output with accepted := output.accepted ++ bytes }

theorem accept_nil (output : Output) : output.accept [] = output := by
  simp [accept]

theorem accept_accept (output : Output) (first second : Bytes) :
    (output.accept first).accept second = output.accept (first ++ second) := by
  have same : output.accepted ++ first ++ second = output.accepted ++ (first ++ second) :=
    Array.toList_inj.mp (by simp)
  rw [accept, accept, accept, same]

theorem ready_accept (output : Output) (bytes : Bytes) (ready : output.Ready) :
    (output.accept bytes).Ready := ⟨ready.working, ready.free⟩

end Output

namespace Machine

/-- A machine after bytes have come out of it. -/
def emitted (machine : Machine) (bytes : Bytes) : Machine :=
  { machine with output := machine.output.accept bytes }

/-- The text that an address leads to. -/
def text? (machine : Machine) : Pointer → Option Text
  | .null => none
  | .constant text => some text
  | .block index => (machine.heap.load? index).map Text.ofMemory

theorem text?_emitted (machine : Machine) (bytes : Bytes) :
    (machine.emitted bytes).text? = machine.text? := by
  funext pointer
  cases pointer <;> rfl

theorem emitted_emitted (machine : Machine) (first second : Bytes) :
    (machine.emitted first).emitted second = machine.emitted (first ++ second) := by
  simp only [emitted, Output.accept_accept]

section Sequence

variable {α β : Type}

theorem bind_of_ok {first : Program α} {machine after : Machine} {value : α}
    (returned : first machine = .ok value after) (next : α → Program β) :
    (first >>= next) machine = next value after := by
  simp only [bind, EStateM.bind, returned]

theorem bind_of_error {first : Program α} {machine after : Machine} {halt : Halt}
    (halted : first machine = .error halt after) (next : α → Program β) :
    (first >>= next) machine = .error halt after := by
  simp only [bind, EStateM.bind, halted]

end Sequence

theorem load_of_gone (machine : Machine) (index : Nat) (gone : machine.heap.load? index = none) :
    load index machine = .error .misuse machine := by
  have looked : load index machine = expect (machine.heap.load? index) machine := rfl
  rw [looked, gone]
  rfl

theorem load_of_live (machine : Machine) (index : Nat) (memory : Bytes)
    (live : machine.heap.load? index = some memory) :
    load index machine = .ok memory machine := by
  have looked : load index machine = expect (machine.heap.load? index) machine := rfl
  rw [looked, live]
  rfl

theorem borrow_of_text (operation : String) (machine : Machine) (pointer : Pointer) (text : Text)
    (found : machine.text? pointer = some text) :
    borrow operation pointer machine = .ok text machine := by
  cases pointer with
  | null => simp [text?] at found
  | constant other =>
    have same : other = text := by simpa [text?] using found
    rw [same]
    rfl
  | block index =>
    obtain ⟨memory, loaded, rfl⟩ := Option.map_eq_some_iff.mp found
    exact bind_of_ok (load_of_live machine index memory loaded) _

theorem mapM_borrow_of_text (operation : String) (machine : Machine)
    (printing : Printing Pointer) (resolved : Printing Text)
    (found : printing.mapM machine.text? = some resolved) :
    printing.mapM (borrow operation) machine = .ok resolved machine := by
  cases printing with
  | print pointer | println pointer | printNumber pointer number =>
    obtain ⟨text, here, same⟩ := Option.bind_eq_some_iff.mp found
    cases same
    exact bind_of_ok (borrow_of_text operation machine pointer text here) _
  | printPair first second =>
    obtain ⟨text, here, rest⟩ := Option.bind_eq_some_iff.mp found
    obtain ⟨other, there, same⟩ := Option.bind_eq_some_iff.mp rest
    cases same
    exact (bind_of_ok (borrow_of_text operation machine first text here) _).trans
      (bind_of_ok (borrow_of_text operation machine second other there) _)

/-- A machine after a printing operation, whatever came of it. -/
def printed (machine : Machine) (printing : Printing Text) : Machine :=
  { machine with
    output := (machine.output.print printing).2
    log := machine.log ++
      (machine.output.print printing).1.toList.map (Notice.notPrinted printing.name) }

theorem emit_eq_printed (machine : Machine) (printing : Printing Text) :
    emit printing machine = .ok () (machine.printed printing) := by
  obtain ⟨input, output, heap, log⟩ := machine
  change EStateM.Result.ok () _ = _
  rcases printed : output.print printing with ⟨fault, after⟩
  cases fault <;> simp [Machine.printed, printed]

theorem emit_of_ready (machine : Machine) (printing : Printing Text)
    (ready : machine.output.Ready) :
    emit printing machine = .ok () (machine.emitted printing.rendering) := by
  have printed := machine.output.print_of_working printing ready.working ready.free
  rw [emit_eq_printed, Machine.printed, printed]
  simp [emitted, Output.accept]

theorem print_of_text (machine : Machine) (printing : Printing Pointer) (resolved : Printing Text)
    (ready : machine.output.Ready) (found : printing.mapM machine.text? = some resolved) :
    print printing machine = .ok () (machine.emitted resolved.rendering) :=
  (bind_of_ok (mapM_borrow_of_text printing.name machine printing resolved found) _).trans
    (emit_of_ready machine resolved ready)

theorem textLength_of_text (machine : Machine) (pointer : Pointer) (text : Text)
    (found : machine.text? pointer = some text) :
    textLength pointer machine = .ok text.length machine :=
  bind_of_ok (borrow_of_text "textlen" machine pointer text found) _

theorem free_of_live (machine : Machine) (index : Nat) (memory : Bytes)
    (live : machine.heap.load? index = some memory) :
    free (.block index) machine = .ok () { machine with heap := machine.heap.release index } :=
  bind_of_ok (load_of_live machine index memory live) _

/-- A read that gives no text hands over null. -/
theorem take_of_nothing (machine : Machine) (input : Input) (extent : Extent)
    (same : machine.input = input) (nothing : (input.read extent).1.1 = none) :
    machine.take extent = (.null, { machine with
      input := (input.read extent).2
      log := machine.log ++ (input.read extent).1.2 }) := by
  subst same
  simp [take, nothing]

/-- A text that is read is handed over in a block of its own. -/
theorem take_of_given (machine : Machine) (input : Input) (extent : Extent) (text : Text)
    (same : machine.input = input) (given : (input.read extent).1.1 = some text) :
    machine.take extent = (.block machine.heap.blocks.size, { machine with
      input := (input.read extent).2
      heap := (machine.heap.allocate text).2
      log := machine.log ++ (input.read extent).1.2 }) := by
  subst same
  simp [take, given, Heap.allocate]

/-- At the end of a working input nothing is handed over. -/
theorem take_of_none (machine : Machine) (source : Source) (extent : Extent)
    (input : machine.input = .working source) (nothing : (source.read extent).text = none) :
    machine.take extent = (.null, { machine with
      input := .working (source.read extent).source
      log := machine.log ++ (source.read extent).log }) :=
  take_of_nothing machine (.working source) extent input nothing

theorem take_of_some (machine : Machine) (source : Source) (extent : Extent) (text : Text)
    (input : machine.input = .working source) (given : (source.read extent).text = some text) :
    machine.take extent = (.block machine.heap.blocks.size, { machine with
      input := .working (source.read extent).source
      heap := (machine.heap.allocate text).2
      log := machine.log ++ (source.read extent).log }) :=
  take_of_given machine (.working source) extent text input given

end Machine
end Console
