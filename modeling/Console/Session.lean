import Console.Printing
import Console.Reading

/-!
# Sessions

A session is a sequence of reads and printing operations over one source and
one sink. Each read keeps its result in the next slot, and a printing
operation names its texts either by their bytes or by such a slot.
-/
namespace Console

namespace Session

inductive Argument where
  | bytes (bytes : Bytes)
  | slot (index : Nat)
deriving DecidableEq

inductive Command where
  | read (extent : Extent)
  | print (printing : Printing Argument)
deriving DecidableEq

inductive Answer where
  | read (text : Option Text) (log : List Notice)
  /-- The bytes accepted and the flushes made, with the fault reported. -/
  | printed (out : Bytes) (flushes : Nat) (fault : Option Fault)
  /-- A slot was named that holds no text. -/
  | noText
deriving DecidableEq

end Session

structure Session where
  source : Source
  sink : Sink
  slots : Array (Option Text) := #[]
deriving DecidableEq

namespace Session

def find? (session : Session) : Argument → Option Text
  | .bytes bytes => some (Text.ofBytes bytes)
  | .slot index => session.slots[index]?.join

def step (session : Session) : Command → Answer × Session
  | .read extent =>
    let reading := session.source.read extent
    (.read reading.text reading.log,
      { session with source := reading.source, slots := session.slots.push reading.text })
  | .print printing =>
    match printing.mapM session.find? with
    | none => (.noText, session)
    | some printing =>
      let { source, sink, slots } := session
      -- an answer tells only what this step added
      let count := sink.accepted.size
      let flushes := sink.flushes
      let (fault, sink) := sink.print printing
      (.printed (bytesSince sink.accepted count) (sink.flushes - flushes) fault,
        { source, sink, slots })

/-- The answers to a list of commands, and the session they leave. -/
def run (session : Session) : List Command → List Answer × Session
  | [] => ([], session)
  | command :: rest =>
    let (answer, session) := session.step command
    let (answers, session) := session.run rest
    (answer :: answers, session)

end Session
end Console
