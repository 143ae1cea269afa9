import Console.Reading

/-!
# Standard input

A program reads one standard input. It may be broken, and then every read
meets the same fault.
-/
namespace Console

inductive Input where
  | working (source : Source)
  | broken (fault : Fault)

namespace Input

def unread : Input → Bytes
  | .working source => source.unread
  | .broken _ => []

/-- Takes a line or a character, with the notices on the way. -/
def read (input : Input) (extent : Extent) : (Option Text × List Notice) × Input :=
  match input with
  | .working source =>
    let reading := source.read extent
    ((reading.text, reading.log), .working reading.source)
  | .broken fault =>
    let reading := (Source.ofFault fault).read extent
    ((reading.text, reading.log), .broken fault)

end Input
end Console
