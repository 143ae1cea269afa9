import Console.Printing

/-!
# Standard output

Standard output gathers bytes before it passes them on. It passes them on when
a line ends, when there is no room for more, and when it is flushed. A flush
ends every printing operation, so a working output never holds anything back
between two of them.

A broken output passes nothing on, and keeps what it holds. So an operation
that has nothing to print fails as well, if an earlier one left something
behind. Bytes that would be passed on directly are not left behind: lines that
come when nothing is held, and more bytes at once than there is ever room for.

Main statements: a working output that holds nothing prints exactly what is to
be printed, and a broken one prints nothing and stays broken.
-/
namespace Console

structure Output where
  /-- What every attempt to pass bytes on meets, if the output is broken. -/
  fault : Option Fault := none
  /-- Bytes that are gathered and not passed on. -/
  held : Bytes := []
  /-- Bytes that came out. -/
  accepted : Array UInt8 := #[]
deriving DecidableEq

namespace Output

def capacity : Nat := 1024

/-- The part of a byte string up to its last line feed. -/
def wholeLines (bytes : Bytes) : Bytes := (bytes.reverse.dropWhile (· != lineFeed)).reverse

/-- The part of a byte string after its last line feed. -/
def lineBegun (bytes : Bytes) : Bytes := (bytes.reverse.takeWhile (· != lineFeed)).reverse

/-- Goes on unless a fault was met. -/
def andThen (result : Option Fault × Output) (next : Output → Option Fault × Output) :
    Option Fault × Output :=
  match result with
  | (some fault, output) => (some fault, output)
  | (none, output) => next output

/-- Passes bytes on directly. Only with no bytes at all can nothing go wrong. -/
def pass (output : Output) (bytes : Bytes) : Option Fault × Output :=
  let { fault, held, accepted } := output
  if bytes.isEmpty then (none, { fault, held, accepted })
  else
    match fault with
    | none => (none, { fault, held, accepted := accepted ++ bytes })
    | some met => (some met, { fault, held, accepted })

/-- Passes on what is held, and keeps it if that fails. -/
def flush (output : Output) : Option Fault × Output :=
  andThen (output.pass output.held) fun output => (none, { output with held := [] })

/-- Makes room for bytes and gathers them, or passes them on directly if there
is never room for so many. -/
def gather (output : Output) (bytes : Bytes) : Option Fault × Output :=
  andThen (if bytes.length ≤ capacity - output.held.length then (none, output) else output.flush)
    fun output =>
      if bytes.length < capacity then (none, { output with held := output.held ++ bytes })
      else output.pass bytes

/-- Passes on whole lines, after what is held. -/
def writeLines (output : Output) (lines : Bytes) : Option Fault × Output :=
  if output.held.isEmpty then output.pass lines
  else andThen (output.gather lines) flush

/-- Passes on a line that is held and has its end. -/
def settle (output : Output) : Option Fault × Output :=
  if output.held.getLast? = some lineFeed then output.flush else (none, output)

def write (output : Output) (bytes : Bytes) : Option Fault × Output :=
  let lines := wholeLines bytes
  andThen (if lines.isEmpty then output.settle else output.writeLines lines)
    (·.gather (lineBegun bytes))

def writePieces (output : Output) : List Bytes → Option Fault × Output
  | [] => (none, output)
  | piece :: rest => andThen (output.write piece) (·.writePieces rest)

def print (output : Output) (printing : Printing Text) : Option Fault × Output :=
  andThen (output.writePieces printing.pieces) flush

@[simp]
theorem wholeLines_append_lineBegun (bytes : Bytes) :
    wholeLines bytes ++ lineBegun bytes = bytes := by
  rw [wholeLines, lineBegun, ← List.reverse_append, List.takeWhile_append_dropWhile,
    List.reverse_reverse]

/-- All that was written, whether it came out or is held. -/
def written (output : Output) : Bytes := output.accepted.toList ++ output.held

/-- A step of a working output that writes bytes and meets no fault. -/
def Writes (step : Option Fault × Output) (output : Output) (bytes : Bytes) : Prop :=
  step.1 = none ∧ step.2.fault = none ∧ step.2.written = output.written ++ bytes

private theorem writes_andThen {step : Option Fault × Output} {output : Output}
    {next : Output → Option Fault × Output} {first second : Bytes}
    (one : Writes step output first)
    (other : ∀ after : Output, after.fault = none → Writes (next after) after second) :
    Writes (andThen step next) output (first ++ second) := by
  obtain ⟨fault, after⟩ := step
  obtain ⟨none, working, written⟩ := one
  subst none
  obtain ⟨met, works, rest⟩ := other after working
  exact ⟨met, works, by simp [andThen, rest, written]⟩

private theorem writes_pass (output : Output) (bytes : Bytes) (working : output.fault = none)
    (free : output.held = []) :
    Writes (output.pass bytes) output bytes ∧ (output.pass bytes).2.held = [] := by
  obtain ⟨fault, held, accepted⟩ := output
  subst working free
  cases bytes <;> simp [Writes, pass, written]

private theorem writes_flush (output : Output) (working : output.fault = none) :
    Writes output.flush output [] ∧ output.flush.2.held = [] := by
  obtain ⟨fault, held, accepted⟩ := output
  subst working
  cases held <;> simp [Writes, flush, pass, andThen, written]

private theorem writes_gather (output : Output) (bytes : Bytes) (working : output.fault = none) :
    Writes (output.gather bytes) output bytes := by
  have append (after : Output) (works : after.fault = none)
      (room : bytes.length < capacity ∨ after.held = []) :
      Writes (if bytes.length < capacity then (none, { after with held := after.held ++ bytes })
        else after.pass bytes) after bytes := by
    split
    next => exact ⟨rfl, works, by simp [written]⟩
    next large => exact (writes_pass after bytes works (room.resolve_left large)).1
  unfold gather
  split
  next roomy =>
    have room : bytes.length < capacity ∨ output.held = [] := by
      cases held : output.held with
      | nil => exact Or.inr rfl
      | cons first rest =>
        left
        simp only [held, List.length_cons, capacity] at *
        omega
    exact append output working room
  next =>
    have flushed := writes_flush output working
    obtain ⟨⟨none, works, written⟩, free⟩ := flushed
    obtain ⟨met, still, rest⟩ := append output.flush.2 works (Or.inr free)
    simp only [Writes, andThen]
    rw [show output.flush = (Option.none, output.flush.2) from Prod.ext none rfl]
    exact ⟨met, still, by simpa [written] using rest⟩

private theorem writes_lines (output : Output) (lines : Bytes) (working : output.fault = none) :
    Writes (if lines.isEmpty then output.settle else output.writeLines lines) output lines := by
  split
  next empty =>
    rw [List.isEmpty_iff.mp empty]
    unfold settle
    split
    · exact (writes_flush output working).1
    · exact ⟨rfl, working, by simp⟩
  next =>
    unfold writeLines
    split
    next free => exact (writes_pass output lines working (List.isEmpty_iff.mp free)).1
    next =>
      have both := writes_andThen (writes_gather output lines working)
        fun after works => (writes_flush after works).1
      rwa [List.append_nil] at both

private theorem writes_write (output : Output) (bytes : Bytes) (working : output.fault = none) :
    Writes (output.write bytes) output bytes := by
  have both := writes_andThen (writes_lines output (wholeLines bytes) working)
    fun after works => writes_gather after (lineBegun bytes) works
  rwa [wholeLines_append_lineBegun] at both

private theorem writes_writePieces (output : Output) (pieces : List Bytes)
    (working : output.fault = none) : Writes (output.writePieces pieces) output pieces.flatten := by
  induction pieces generalizing output with
  | nil => exact ⟨rfl, working, by simp [writePieces]⟩
  | cons piece rest ih => exact writes_andThen (writes_write output piece working) ih

/-- A working output that holds nothing prints all that is to be printed, and
holds nothing afterwards. -/
theorem print_of_working (output : Output) (printing : Printing Text)
    (working : output.fault = none) (free : output.held = []) :
    output.print printing =
      (none, { output with accepted := output.accepted ++ printing.rendering }) := by
  obtain ⟨met, works, pieces⟩ := writes_writePieces output printing.pieces working
  obtain ⟨⟨none, still, flushed⟩, empty⟩ := writes_flush (output.writePieces printing.pieces).2 works
  have same : output.print printing = (output.writePieces printing.pieces).2.flush := by
    unfold print
    rw [show output.writePieces printing.pieces =
      (Option.none, (output.writePieces printing.pieces).2) from Prod.ext met rfl]
    rfl
  rw [same]
  refine Prod.ext none ?_
  generalize (output.writePieces printing.pieces).2.flush.2 = after at *
  obtain ⟨fault, held, accepted⟩ := after
  obtain ⟨outputFault, outputHeld, outputAccepted⟩ := output
  simp only [written] at *
  subst still empty working free
  rw [pieces] at flushed
  simp only [List.append_nil] at flushed
  simp only [Output.mk.injEq, true_and]
  exact Array.toList_inj.mp (by simpa [Printing.rendering] using flushed)

/-- A step of an output that lets nothing out and keeps its fault. -/
def Blocked (step : Option Fault × Output) (output : Output) : Prop :=
  step.2.fault = output.fault ∧ step.2.accepted = output.accepted

private theorem blocked_andThen {step : Option Fault × Output} {output : Output}
    {next : Output → Option Fault × Output} {fault : Fault} (broken : output.fault = some fault)
    (one : Blocked step output)
    (other : ∀ after : Output, after.fault = some fault → Blocked (next after) after) :
    Blocked (andThen step next) output := by
  obtain ⟨met, after⟩ := step
  obtain ⟨still, accepted⟩ := one
  cases met with
  | some met => exact ⟨still, accepted⟩
  | none =>
    obtain ⟨later, rest⟩ := other after (still.trans broken)
    exact ⟨later.trans still, rest.trans accepted⟩

private theorem blocked_pass (output : Output) (bytes : Bytes) (fault : Fault)
    (broken : output.fault = some fault) : Blocked (output.pass bytes) output := by
  obtain ⟨outputFault, held, accepted⟩ := output
  subst broken
  unfold pass
  dsimp only
  split <;> exact ⟨rfl, rfl⟩

private theorem blocked_flush (output : Output) (fault : Fault)
    (broken : output.fault = some fault) : Blocked output.flush output :=
  blocked_andThen broken (blocked_pass output _ fault broken) fun _ _ => ⟨rfl, rfl⟩

private theorem blocked_gather (output : Output) (bytes : Bytes) (fault : Fault)
    (broken : output.fault = some fault) : Blocked (output.gather bytes) output := by
  apply blocked_andThen broken
  · split
    · exact ⟨rfl, rfl⟩
    · exact blocked_flush output fault broken
  · intro after still
    split
    · exact ⟨rfl, rfl⟩
    · exact blocked_pass after bytes fault still

private theorem blocked_write (output : Output) (bytes : Bytes) (fault : Fault)
    (broken : output.fault = some fault) : Blocked (output.write bytes) output := by
  apply blocked_andThen broken
  · split
    · unfold settle
      split
      · exact blocked_flush output fault broken
      · exact ⟨rfl, rfl⟩
    · unfold writeLines
      split
      · exact blocked_pass output _ fault broken
      · exact blocked_andThen broken (blocked_gather output _ fault broken)
          fun after still => blocked_flush after fault still
  · intro after still
    exact blocked_gather after _ fault still

private theorem blocked_writePieces (output : Output) (pieces : List Bytes) (fault : Fault)
    (broken : output.fault = some fault) : Blocked (output.writePieces pieces) output := by
  induction pieces generalizing output with
  | nil => exact ⟨rfl, rfl⟩
  | cons piece rest ih => exact blocked_andThen broken (blocked_write output piece fault broken) ih

/-- Nothing comes out of a broken output, and it stays broken. -/
theorem print_of_broken (output : Output) (printing : Printing Text) (fault : Fault)
    (broken : output.fault = some fault) :
    (output.print printing).2.fault = some fault ∧
      (output.print printing).2.accepted = output.accepted := by
  obtain ⟨still, accepted⟩ : Blocked (output.print printing) output :=
    blocked_andThen broken (blocked_writePieces output printing.pieces fault broken)
      fun after broken => blocked_flush after fault broken
  exact ⟨still.trans broken, accepted⟩

end Output
end Console
