import Console.Machine.Call

/-!
# Scripts

A script is a list of calls that a program makes. Each read puts the address
it returns in the next slot, so that later calls can name it. A call that
halts the program is the last one answered.
-/
namespace Console

namespace Script

/-- How a call of a script names an address. -/
inductive Operand where
  | bytes (bytes : Bytes)
  | slot (index : Nat)
  | null
deriving DecidableEq

inductive Call where
  | print (text : Operand)
  | println (text : Operand)
  | printNumber (text : Operand) (number : Int32)
  | printPair (first second : Operand)
  | printInteger (number : Int32)
  | textLength (text : Operand)
  | read (extent : Extent)
  | free (text : Operand)
  | poke (text : Operand) (offset : Nat) (byte : UInt8)
  | peek (text : Operand)
deriving DecidableEq

inductive Result where
  | done
  | length (count : Nat)
  | text (text : Option Text)
  | halted (halt : Halt)
deriving DecidableEq

/-- The answer to a call: the bytes that came out, the notices, the result. -/
structure Answer where
  out : Bytes
  log : List Notice
  result : Result
deriving DecidableEq

def point (slots : Array Pointer) : Operand → Program Pointer
  | .bytes bytes => return .constant (Text.ofBytes bytes)
  | .slot index => Machine.expect slots[index]?
  | .null => return .null

/-- Makes a call and keeps the address that a read returns. -/
def perform (slots : Array Pointer) : Call → Program (Result × Array Pointer)
  | .print text => do
    Machine.print (.print (← point slots text))
    return (.done, slots)
  | .println text => do
    Machine.print (.println (← point slots text))
    return (.done, slots)
  | .printNumber text number => do
    Machine.print (.printNumber (← point slots text) number.toInt64)
    return (.done, slots)
  | .printPair first second => do
    Machine.print (.printPair (← point slots first) (← point slots second))
    return (.done, slots)
  | .printInteger number => do
    Machine.printInteger number
    return (.done, slots)
  | .textLength text => do
    return (.length (← Machine.textLength (← point slots text)), slots)
  | .read extent => do
    let pointer ← Machine.read extent
    return (.text (← Machine.peek pointer), slots.push pointer)
  | .free text => do
    Machine.free (← point slots text)
    return (.done, slots)
  | .poke text offset byte => do
    Machine.poke (← point slots text) offset byte
    return (.done, slots)
  | .peek text => do
    return (.text (← Machine.peek (← point slots text)), slots)

/-- What a call did to a machine, as seen from outside. -/
def answer (count : Nat) (after : Machine) (result : Result) : Answer where
  out := bytesSince after.output.accepted count
  log := after.log.toList
  result := result

/-- The answers to calls made one after the other. -/
def run (machine : Machine) (slots : Array Pointer) : List Call → List Answer
  | [] => []
  | call :: rest =>
    let count := machine.output.accepted.size
    match perform slots call { machine with log := #[] } with
    | .ok (result, slots) after => answer count after result :: run after slots rest
    | .error halt after => [answer count after (.halted halt)]

end Script
end Console
