import Console.Byte
import Console.Fatal
import Console.Fault

/-!
# Notices

What happens inside an operation, and cannot be seen in its result, is told
in notices. A notice is an event; its level and wording follow from that.
-/
namespace Console

inductive Notice where
  /-- Reading a line met a fault, and stopped there as at the end of input. -/
  | lineFailed (fault : Fault)
  /-- Input ended before a line began. -/
  | noLine
  /-- Looking for the line feed of a carriage return met a fault. -/
  | lookAheadFailed (fault : Fault)
  /-- A line was read; its length counts every byte before the line's end. -/
  | lineRead (length capacity : Nat)
  | noCharacter
  | characterFailed (fault : Fault)
  | characterRead (byte : UInt8)
  /-- An operation could not print, and its caller is not told. -/
  | notPrinted (operation : String) (fault : Fault)
  | fatal (cause : Fatal)
deriving DecidableEq

namespace Notice

inductive Level where
  | error
  | warn
  | debug
  | trace
deriving DecidableEq

def Level.name : Level → String
  | .error => "error"
  | .warn => "warn"
  | .debug => "debug"
  | .trace => "trace"

def level : Notice → Level
  | .lineFailed _ | .lookAheadFailed _ | .characterFailed _ | .notPrinted _ _ => .warn
  | .noLine | .noCharacter => .debug
  | .lineRead _ _ | .characterRead _ => .trace
  | .fatal _ => .error

def message : Notice → String
  | .lineFailed fault => s!"reading a line failed, treating as end of input: {fault.message}"
  | .noLine => "end of input reached before a line"
  | .lookAheadFailed fault => s!"reading after a carriage return failed: {fault.message}"
  | .lineRead length capacity =>
    s!"read a line of {length} bytes (scratch capacity {capacity})"
  | .noCharacter => "end of input reached before a character"
  | .characterFailed fault =>
    s!"reading a character failed, treating as end of input: {fault.message}"
  | .characterRead byte => "read character 0x" ++ String.ofList (hexPair byte)
  | .notPrinted operation fault =>
    s!"`{operation}` could not write to standard output: {fault.message}"
  | .fatal cause => cause.message

def render (notice : Notice) : String := notice.level.name ++ ": " ++ notice.message

end Notice
end Console
