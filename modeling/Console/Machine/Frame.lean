import Console.Machine.Call

/-!
# What calls leave alone

Only a read touches standard input. Every other call keeps it, whether it
returns or halts the program, so a program that reads until input ends does
end. A read that returns a text leaves less to read.
-/
namespace Console

variable {α β : Type}

/-- The machine in which a program returned or halted. -/
def Program.final (program : Program α) (machine : Machine) : Machine :=
  match program machine with
  | .ok _ after => after
  | .error _ after => after

/-- A program that leaves standard input alone. -/
def Program.KeepsInput (program : Program α) : Prop :=
  ∀ machine, (program.final machine).input = machine.input

namespace Machine

theorem keepsInput_pure (value : α) : Program.KeepsInput (pure value) := fun _ => rfl

theorem keepsInput_throw (halt : Halt) : Program.KeepsInput (α := α) (throw halt) := fun _ => rfl

theorem keepsInput_bind {first : Program α} {next : α → Program β}
    (one : Program.KeepsInput first) (other : ∀ value, Program.KeepsInput (next value)) :
    Program.KeepsInput (first >>= next) := by
  intro machine
  have kept := one machine
  simp only [Program.final, bind, EStateM.bind] at *
  cases run : first machine with
  | error halt after => simpa [run] using kept
  | ok value after =>
    rw [run] at kept
    exact (other value after).trans kept

theorem keepsInput_expect (value : Option α) : Program.KeepsInput (expect value) := by
  cases value with
  | none => exact keepsInput_throw _
  | some value => exact keepsInput_pure value

theorem keepsInput_load (index : Nat) : Program.KeepsInput (load index) :=
  keepsInput_bind (fun _ => rfl) fun _ => keepsInput_expect _

theorem keepsInput_borrow (operation : String) (pointer : Pointer) :
    Program.KeepsInput (borrow operation pointer) := by
  cases pointer with
  | null => exact fun _ => rfl
  | constant text => exact keepsInput_pure text
  | block index => exact keepsInput_bind (keepsInput_load index) fun _ => keepsInput_pure _

theorem keepsInput_modify (update : Machine → Machine)
    (kept : ∀ machine, (update machine).input = machine.input) :
    Program.KeepsInput (modify update) := kept

theorem keepsInput_emit (printing : Printing Text) : Program.KeepsInput (emit printing) := by
  apply keepsInput_modify
  intro machine
  dsimp only
  split <;> rfl

theorem keepsInput_print (printing : Printing Pointer) : Program.KeepsInput (print printing) := by
  refine keepsInput_bind ?_ keepsInput_emit
  cases printing with
  | print text | println text | printNumber text number =>
    exact keepsInput_bind (keepsInput_borrow _ _) fun _ => keepsInput_pure _
  | printPair first second =>
    exact keepsInput_bind (keepsInput_borrow _ _) fun _ =>
      keepsInput_bind (keepsInput_borrow _ _) fun _ => keepsInput_pure _

theorem keepsInput_textLength (pointer : Pointer) : Program.KeepsInput (textLength pointer) :=
  keepsInput_bind (keepsInput_borrow _ _) fun _ => keepsInput_pure _

theorem keepsInput_free (pointer : Pointer) : Program.KeepsInput (free pointer) := by
  cases pointer with
  | null => exact keepsInput_pure ()
  | constant text => exact keepsInput_throw _
  | block index => exact keepsInput_bind (keepsInput_load index) fun _ => fun _ => rfl

theorem unread_take_lt (machine : Machine) (extent : Extent)
    (given : (machine.take extent).1 ≠ .null) :
    (machine.take extent).2.input.unread.length < machine.input.unread.length := by
  obtain ⟨input, output, heap, log⟩ := machine
  cases input with
  | working source =>
    cases text : (source.read extent).text with
    | none => simp [take, Input.read, text] at given
    | some value =>
      have shorter := Source.unread_read_lt source extent value text
      simpa [take, Input.read, Input.unread, text] using shorter
  | broken fault =>
    exfalso
    cases text : ((Source.ofFault fault).read extent).text with
    | none => simp [take, Input.read, text] at given
    | some value =>
      have shorter := Source.unread_read_lt (Source.ofFault fault) extent value text
      simp [Source.ofFault, Source.unread, Delivery.bytes] at shorter

end Machine
end Console
