import Console.Machine.Frame

/-!
# Echoing input

Reads standard input to its end, a line or a byte at a time, prints each text,
releases it, and counts. Lengths are clamped to the largest number of 32 bits.
The count is a number of 32 bits as well.
-/
namespace Console.Tool

open Machine

/-- The largest number of 32 bits, if a length exceeds it. -/
def clamp (length : Nat) : Int32 :=
  if (length : Int) ≤ Int32.maxValue.toInt then Int32.ofNat length else Int32.maxValue

def phrase (string : String) : Pointer := .constant (Text.ofString string)

def present : Extent → Pointer → Program Unit
  | .line, line => do
    print (.printPair (phrase "> ") line)
    print (.printNumber (phrase "length: ") (clamp (← textLength line)).toInt64)
  | .character, character => print (.printPair (phrase "char: ") character)

/-- Prints a text that was read and gives it back. -/
def echoOne (extent : Extent) (pointer : Pointer) : Program Unit := do
  present extent pointer
  free pointer

theorem keepsInput_echoOne (extent : Extent) (pointer : Pointer) :
    Program.KeepsInput (echoOne extent pointer) := by
  refine keepsInput_bind ?_ fun _ => keepsInput_free pointer
  cases extent with
  | line =>
    exact keepsInput_bind (keepsInput_print _) fun _ =>
      keepsInput_bind (keepsInput_textLength _) fun _ => keepsInput_print _
  | character => exact keepsInput_print _

/-- Echoes texts until input ends, and counts them. -/
def drain (extent : Extent) (count : Int32) (machine : Machine) :
    EStateM.Result Halt Machine Int32 :=
  let taken := machine.take extent
  if _given : taken.1 = .null then .ok count taken.2
  else
    match echoed : echoOne extent taken.1 taken.2 with
    | .error halt after => .error halt after
    | .ok () after => drain extent (count + 1) after
termination_by machine.input.unread.length
decreasing_by
  have kept := keepsInput_echoOne extent taken.1 taken.2
  rw [Program.final, echoed] at kept
  rw [kept]
  exact unread_take_lt machine extent _given

def totalLabel : Extent → String
  | .line => "lines: "
  | .character => "chars: "

def echo (extent : Extent) : Program Unit := do
  let count ← drain extent 0
  print (.printNumber (phrase (totalLabel extent)) count.toInt64)

end Console.Tool
