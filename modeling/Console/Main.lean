import Console.Tool.Command

/-!
# The program

Connects the tool with the arguments, the standard streams and the files of
the process it runs in.
-/
namespace Console.Main

open Tool

/-- The pieces in which a stream is handed out, up to its end. -/
partial def readPieces (stream : IO.FS.Stream) (pieces : Array Delivery) :
    IO (Array Delivery) := do
  let piece ← stream.read 8192
  if piece.isEmpty then return pieces
  readPieces stream (pieces.push (.data piece.data.toList))

def reason : IO.Error → String
  | .noFileOrDirectory .. => SystemError.notFound.message
  | .inappropriateType _ code _ =>
    if code = 20 then SystemError.notDirectory.message else SystemError.isDirectory.message
  | .invalidArgument _ 36 _ => SystemError.nameTooLong.message
  | error => toString error

/-- Standard input is read only by a command that needs it. -/
def inputFor : Command → IO Source
  | .echo _ => return { pending := (← readPieces (← IO.getStdin) #[]).toList }
  | _ => return {}

/-- Prints what an outcome holds and gives the status. A stopped program has
the status of an abort. -/
def finish (outcome : Outcome) : IO UInt32 := do
  let stdout ← IO.getStdout
  stdout.write ⟨outcome.stdout.toArray⟩
  stdout.flush
  IO.eprint outcome.stderr
  match outcome.ending with
  | .exit status => return UInt32.ofNat status
  | .aborted => return 134

def run (arguments : List String) : IO UInt32 :=
  match Command.ofArguments? arguments with
  | none => finish (Tool.run arguments {} {})
  | some (.header (some path)) =>
    try
      IO.FS.writeFile path Interface.header
      return 0
    catch error =>
      IO.eprint (unwritten path (reason error))
      return 1
  | some command => do finish (command.run (← inputFor command) {})

end Console.Main

def main (arguments : List String) : IO UInt32 := Console.Main.run arguments
