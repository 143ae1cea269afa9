/-!
# Faults

A stream that cannot do what it is asked reports a fault: a kind, on which
the response may depend, and a message for the reader of the log. An
interruption is the one kind that means "ask again".
-/
namespace Console

inductive Fault.Kind where
  | interrupted
  | other
  | brokenPipe
  | unexpectedEnd
  | wouldBlock
  | timedOut
  | connectionReset
  | invalidData
  | writeZero
  | permissionDenied
  | notFound
  | isDirectory
  | notDirectory
  | invalidName
deriving DecidableEq

structure Fault where
  kind : Fault.Kind
  message : String
deriving DecidableEq

namespace Fault

def isInterruption (fault : Fault) : Bool := fault.kind = .interrupted

/-- Reported when a sink that was offered bytes took none of them. -/
def nothingTaken : Fault where
  kind := .writeZero
  message := "failed to write whole buffer"

end Fault

inductive SystemError where
  | notFound
  | notDirectory
  | isDirectory
  | brokenPipe
  | nameTooLong
deriving DecidableEq

namespace SystemError

def code : SystemError → Nat
  | .notFound => 2
  | .notDirectory => 20
  | .isDirectory => 21
  | .brokenPipe => 32
  | .nameTooLong => 36

def description : SystemError → String
  | .notFound => "No such file or directory"
  | .notDirectory => "Not a directory"
  | .isDirectory => "Is a directory"
  | .brokenPipe => "Broken pipe"
  | .nameTooLong => "File name too long"

def message (error : SystemError) : String := s!"{error.description} (os error {error.code})"

def kind : SystemError → Fault.Kind
  | .notFound => .notFound
  | .notDirectory => .notDirectory
  | .isDirectory => .isDirectory
  | .brokenPipe => .brokenPipe
  | .nameTooLong => .invalidName

def fault (error : SystemError) : Fault where
  kind := error.kind
  message := error.message

end SystemError
end Console
