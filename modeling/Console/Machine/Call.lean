import Console.Machine.Heap
import Console.Machine.Input
import Console.Machine.Output

/-!
# Calls

The functions a C program may call, as programs over a machine: its standard
streams, the memory handed to it, and the log. A null address where a text is
needed stops the program before anything is printed. A fault on the way out is
told in the log and not to the caller.

The caller may overwrite a text it was handed, in place. It must not touch
memory that it has released, nor put a zero inside a text. What breaks these
rules has no result.
-/
namespace Console

structure Machine where
  input : Input
  output : Output := {}
  heap : Heap := {}
  log : Array Notice := #[]

/-- Why a program does not go on. -/
inductive Halt where
  | fatal (cause : Fatal)
  /-- A rule on memory was broken, and nothing is promised any more. -/
  | misuse
deriving DecidableEq

abbrev Program := EStateM Halt Machine

namespace Machine

/-- A machine whose standard input is handed out by a source, in whatever pieces. -/
def ofInput (stdin : Source) : Machine where
  input := .working stdin

def note (machine : Machine) (notices : List Notice) : Machine :=
  { machine with log := machine.log ++ notices }

def abort {α : Type} (cause : Fatal) : Program α := do
  modify (·.note [.fatal cause])
  throw (.fatal cause)

/-- Takes a result that broken rules on memory do not have. -/
def expect {α : Type} : Option α → Program α
  | some value => return value
  | none => throw .misuse

def load (index : Nat) : Program Bytes := do expect ((← get).heap.load? index)

/-- The text at an address that an operation was given. -/
def borrow (operation : String) : Pointer → Program Text
  | .null => abort (.nullText operation)
  | .constant text => return text
  | .block index => return Text.ofMemory (← load index)

/-- Prints to standard output. A fault is told in the log only. -/
def emit (printing : Printing Text) : Program Unit := modify fun machine =>
  let { input, output, heap, log } := machine
  let (fault, output) := output.print printing
  match fault with
  | none => { input, output, heap, log }
  | some fault => { input, output, heap, log := log.push (.notPrinted printing.name fault) }

def print (printing : Printing Pointer) : Program Unit := do
  emit (← printing.mapM (borrow printing.name))

def printInteger (number : Int32) : Program Unit :=
  emit (.printNumber .empty number.toInt64)

def textLength (pointer : Pointer) : Program Nat :=
  return (← borrow "textlen" pointer).length

/-- Hands a text that was read over to the caller, or null at the end of input. -/
def take (machine : Machine) (extent : Extent) : Pointer × Machine :=
  let { input, output, heap, log } := machine
  let ((text, notices), input) := input.read extent
  let log := log ++ notices
  match text with
  | none => (.null, { input, output, heap, log })
  | some text =>
    let (pointer, heap) := heap.allocate text
    (pointer, { input, output, heap, log })

def read (extent : Extent) : Program Pointer := modifyGet (·.take extent)

/-- Releases a text that was handed over. Null may be released at any time. -/
def free : Pointer → Program Unit
  | .null => return ()
  | .constant _ => throw .misuse
  | .block index => do
    let _ ← load index
    modify fun machine => { machine with heap := machine.heap.release index }

/-- The caller's own look at a text it was handed. -/
def peek : Pointer → Program (Option Text)
  | .null => return none
  | .constant text => return some text
  | .block index => return some (Text.ofMemory (← load index))

/-- The caller's own change to a text it was handed: a byte inside it becomes
another that is not zero. -/
def poke (pointer : Pointer) (offset : Nat) (byte : UInt8) : Program Unit :=
  match pointer with
  | .block index => do
    let memory ← load index
    if offset < lengthBeforeZero memory ∧ byte ≠ 0 then
      modify fun machine =>
        { machine with heap := machine.heap.store index (memory.set offset byte) }
    else throw .misuse
  | _ => throw .misuse

end Machine
end Console
