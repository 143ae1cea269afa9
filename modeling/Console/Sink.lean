import Console.Byte
import Console.Fault

/-!
# Sinks

A sink accepts bytes, though not always as many as it is offered, and may
refuse at given offsets. A refusal at an offset strikes once, when as many
bytes have been accepted; no write goes past the offset of the next refusal.
Refusals of flushes are given by the number of the flush.

`Sink.writeAll` keeps offering what is left: it goes on after a short write
and after an interruption, and stops at any other fault.
-/
namespace Console

/-- How a sink refuses a write: by a fault, or by taking no byte. -/
inductive Refusal where
  | failure (fault : Fault)
  | nothing
deriving DecidableEq

/-- The fault a writer reports when it gives up at a refusal. -/
def Refusal.reported : Refusal → Fault
  | .failure fault => fault
  | .nothing => .nothingTaken

def Refusal.isInterruption : Refusal → Bool
  | .failure fault => fault.isInterruption
  | .nothing => false

structure Sink where
  /-- The most bytes accepted by one write. -/
  portion : Option Portion := none
  /-- The refusals to come, each with its offset. -/
  refusals : List (Nat × Refusal) := []
  /-- The faults of flushes to come, each with the number of its flush. -/
  flushFaults : List (Nat × Fault) := []
  accepted : Array UInt8 := #[]
  flushes : Nat := 0
deriving DecidableEq

namespace Sink

/-- The refusal that the next write meets. -/
def due? (sink : Sink) : Option Refusal :=
  match sink.refusals with
  | [] => none
  | (offset, refusal) :: _ => if offset ≤ sink.accepted.size then some refusal else none

/-- A refusal that has been met is over. -/
def pass (sink : Sink) : Sink := { sink with refusals := sink.refusals.tail }

/-- As much of a buffer as a write takes that meets no refusal. -/
def share (sink : Sink) (buffer : Bytes) : Bytes :=
  let portion := Portion.cut sink.portion buffer
  match sink.refusals with
  | [] => portion
  -- a write does not go past the offset of the next refusal
  | (offset, _) :: _ => portion.take (offset - sink.accepted.size)

def accept (sink : Sink) (bytes : Bytes) : Sink :=
  { sink with accepted := sink.accepted ++ bytes }

@[simp]
theorem toList_accepted_accept (sink : Sink) (bytes : Bytes) :
    (sink.accept bytes).accepted.toList = sink.accepted.toList ++ bytes := by
  simp [accept]

@[simp]
theorem refusals_accept (sink : Sink) (bytes : Bytes) :
    (sink.accept bytes).refusals = sink.refusals := rfl

theorem share_isPrefix (sink : Sink) (buffer : Bytes) : sink.share buffer <+: buffer := by
  have portion := Portion.cut_isPrefix sink.portion buffer
  unfold share
  split
  · exact portion
  · exact (List.take_prefix _ _).trans portion

theorem share_ne_nil (sink : Sink) (buffer : Bytes) (free : sink.due? = none)
    (offered : buffer ≠ []) : sink.share buffer ≠ [] := by
  have portion : Portion.cut sink.portion buffer ≠ [] :=
    fun empty => offered ((Portion.cut_eq_nil _ _).mp empty)
  unfold share
  split
  next => exact portion
  next offset refusal later refusals =>
    have ahead : ¬ offset ≤ sink.accepted.size := by
      simpa [due?, refusals] using free
    simp only [ne_eq, List.take_eq_nil_iff, not_or]
    exact ⟨by omega, portion⟩

theorem length_refusals_pass (sink : Sink) (refusal : Refusal) (met : sink.due? = some refusal) :
    sink.pass.refusals.length < sink.refusals.length := by
  cases refusals : sink.refusals with
  | nil => simp [due?, refusals] at met
  | cons first later => simp [pass, refusals]

/-- Offers a buffer until all of it is accepted or a fault has to be reported. -/
def writeAll (sink : Sink) (buffer : Bytes) : Option Fault × Sink :=
  match buffer with
  | [] => (none, sink)
  | first :: others =>
    match _met : sink.due? with
    | some refusal =>
      if refusal.isInterruption then sink.pass.writeAll (first :: others)
      else (some refusal.reported, sink.pass)
    | none =>
      let taken := sink.share (first :: others)
      (sink.accept taken).writeAll ((first :: others).drop taken.length)
termination_by sink.refusals.length + buffer.length
decreasing_by
  -- an interruption uses up a refusal, any other write uses up bytes
  · have fewer := length_refusals_pass sink refusal _met
    omega
  · have taken := List.length_pos_iff.mpr (share_ne_nil sink (first :: others) _met (by simp))
    simp only [refusals_accept, List.length_drop, List.length_cons] at *
    omega

@[simp]
theorem writeAll_nil (sink : Sink) : sink.writeAll [] = (none, sink) := by
  rw [writeAll]

theorem writeAll_of_interruption (sink : Sink) (buffer : Bytes) (refusal : Refusal)
    (met : sink.due? = some refusal) (interrupted : refusal.isInterruption = true)
    (offered : buffer ≠ []) : sink.writeAll buffer = sink.pass.writeAll buffer := by
  cases buffer with
  | nil => exact absurd rfl offered
  | cons first others =>
    rw [writeAll]
    split
    next found same =>
      rw [met, Option.some.injEq] at same
      rw [if_pos (same ▸ interrupted)]
    next free => simp [met] at free

theorem writeAll_of_refusal (sink : Sink) (buffer : Bytes) (refusal : Refusal)
    (met : sink.due? = some refusal) (final : refusal.isInterruption = false)
    (offered : buffer ≠ []) : sink.writeAll buffer = (some refusal.reported, sink.pass) := by
  cases buffer with
  | nil => exact absurd rfl offered
  | cons first others =>
    rw [writeAll]
    split
    next found same =>
      rw [met, Option.some.injEq] at same
      subst same
      simp [final]
    next free => simp [met] at free

theorem writeAll_of_free (sink : Sink) (buffer : Bytes) (free : sink.due? = none) :
    sink.writeAll buffer =
      (sink.accept (sink.share buffer)).writeAll (buffer.drop (sink.share buffer).length) := by
  cases buffer with
  | nil =>
    have nothing : sink.share [] = [] := List.prefix_nil.mp (sink.share_isPrefix [])
    simp [nothing, accept]
  | cons first others =>
    rw [writeAll]
    split
    next found met => simp [free] at met
    next => rfl

def writePieces (sink : Sink) : List Bytes → Option Fault × Sink
  | [] => (none, sink)
  | piece :: rest =>
    match sink.writeAll piece with
    | (some fault, after) => (some fault, after)
    | (none, after) => after.writePieces rest

/-- A flush is tried once, whatever comes of it. -/
def flush (sink : Sink) : Option Fault × Sink :=
  match sink.flushFaults with
  | [] => (none, { sink with flushes := sink.flushes + 1 })
  | (number, fault) :: later =>
    if number = sink.flushes then
      (some fault, { sink with flushes := sink.flushes + 1, flushFaults := later })
    else (none, { sink with flushes := sink.flushes + 1 })

def emit (sink : Sink) (pieces : List Bytes) : Option Fault × Sink :=
  match sink.writePieces pieces with
  | (some fault, after) => (some fault, after)
  | (none, after) => after.flush

end Sink
end Console
