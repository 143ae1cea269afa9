import Console.Session

/-!
# Pieces do not show

A sink takes a buffer in shares, and an operation offers what it prints in
pieces. Neither can be seen from outside. A refusal strikes at an offset of all
that was accepted, so it strikes at the same byte however the bytes before it
were cut. What a sink becomes, and what it reports, depends on the bytes it is
offered and on nothing else.
-/
namespace Console

namespace Sink

/-- The next refusal comes after so many bytes. -/
def Admits (sink : Sink) (bytes : Bytes) : Prop :=
  ∀ entry ∈ sink.refusals.head?, sink.accepted.size + bytes.length ≤ entry.1

private theorem size_accepted_accept (sink : Sink) (bytes : Bytes) :
    (sink.accept bytes).accepted.size = sink.accepted.size + bytes.length := by
  rw [← Array.length_toList, toList_accepted_accept, List.length_append, Array.length_toList]

private theorem accept_nil (sink : Sink) : sink.accept [] = sink := by
  simp [accept]

private theorem accept_accept (sink : Sink) (first second : Bytes) :
    (sink.accept first).accept second = sink.accept (first ++ second) := by
  have same : sink.accepted ++ first ++ second = sink.accepted ++ (first ++ second) :=
    Array.toList_inj.mp (by simp)
  rw [accept, accept, accept, same]

private theorem due?_of_admits (sink : Sink) (byte : UInt8) (rest : Bytes)
    (admits : sink.Admits (byte :: rest)) : sink.due? = none := by
  cases refusals : sink.refusals with
  | nil => simp [due?, refusals]
  | cons entry later =>
    have ahead := admits entry (by simp [refusals])
    rw [List.length_cons] at ahead
    simp only [due?, refusals]
    rw [if_neg (by omega)]

private theorem share_append_drop (sink : Sink) (buffer : Bytes) :
    sink.share buffer ++ buffer.drop (sink.share buffer).length = buffer :=
  List.prefix_iff_eq_append.mp (sink.share_isPrefix buffer)

private theorem admits_share (sink : Sink) (buffer : Bytes) (free : sink.due? = none) :
    sink.Admits (sink.share buffer) := by
  intro entry next
  cases refusals : sink.refusals with
  | nil => simp [refusals] at next
  | cons first later =>
    have same : first = entry := by simpa [refusals] using next
    subst same
    have ahead : ¬ first.1 ≤ sink.accepted.size := by
      simpa [due?, refusals] using free
    simp only [share, refusals, List.length_take]
    omega

private theorem admits_of_append (sink : Sink) (first second : Bytes)
    (admits : sink.Admits (first ++ second)) : (sink.accept first).Admits second := by
  intro entry next
  have ahead := admits entry next
  rw [List.length_append] at ahead
  rw [size_accepted_accept]
  omega

/-- Bytes that no refusal keeps from being accepted might as well be accepted
first, whatever the shares in which they are taken. -/
theorem writeAll_of_admits (sink : Sink) (part rest : Bytes) (admits : sink.Admits part) :
    sink.writeAll (part ++ rest) = (sink.accept part).writeAll rest := by
  -- a share may end before the part does or reach beyond it, so the induction is on all bytes left
  induction offered : (part ++ rest).length using Nat.strongRecOn
    generalizing sink part rest with
  | ind count ih =>
    cases part with
    | nil => rw [List.nil_append, accept_nil]
    | cons first others =>
      have free := due?_of_admits sink first others admits
      have reached := admits_share sink (first :: others ++ rest) free
      have progress := share_ne_nil sink (first :: others ++ rest) free (by simp)
      have whole := share_append_drop sink (first :: others ++ rest)
      rw [writeAll_of_free sink _ free]
      generalize sink.share (first :: others ++ rest) = taken at *
      generalize (first :: others ++ rest).drop taken.length = more at *
      have positive := List.length_pos_iff.mpr progress
      have total := congrArg List.length whole
      rw [List.length_append, offered] at total
      rcases List.append_eq_append_iff.mp whole with
        ⟨missing, cut, rfl⟩ | ⟨extra, cut, rfl⟩
      · -- the rest of the part is offered next
        rw [cut] at admits ⊢
        rw [ih _ (by omega) (sink.accept taken) missing rest
          (admits_of_append sink taken missing admits) rfl, accept_accept]
      · -- the share has taken more than the part
        rw [cut] at reached ⊢
        have shorter : (extra ++ more).length < count := by
          simp only [List.length_append, List.length_cons] at offered ⊢
          omega
        rw [ih _ shorter (sink.accept (first :: others)) extra more
          (admits_of_append sink _ extra reached) rfl, accept_accept]

/-- A buffer may be offered in two, with the second part after the first. -/
theorem writeAll_append (sink : Sink) (first second : Bytes) :
    sink.writeAll (first ++ second) =
      match sink.writeAll first with
      | (some fault, after) => (some fault, after)
      | (none, after) => after.writeAll second := by
  fun_induction writeAll sink first with
  | case1 sink => rfl
  | case2 sink byte others refusal due interrupted ih =>
    rw [writeAll_of_interruption sink _ refusal due interrupted (by simp)]
    exact ih
  | case3 sink byte others refusal due final =>
    rw [writeAll_of_refusal sink _ refusal due (by simpa using final) (by simp)]
  | case4 sink byte others free taken ih =>
    rw [← ih]
    calc sink.writeAll (byte :: others ++ second)
      _ = sink.writeAll (taken ++ ((byte :: others).drop taken.length ++ second)) := by
        rw [← List.append_assoc, share_append_drop]
      _ = (sink.accept taken).writeAll ((byte :: others).drop taken.length ++ second) :=
        writeAll_of_admits sink taken _ (admits_share sink _ free)

theorem writePieces_eq_writeAll (sink : Sink) (pieces : List Bytes) :
    sink.writePieces pieces = sink.writeAll pieces.flatten := by
  induction pieces generalizing sink with
  | nil => rw [List.flatten_nil, writeAll_nil, writePieces]
  | cons piece rest ih =>
    rw [List.flatten_cons, writeAll_append, writePieces]
    rcases sink.writeAll piece with ⟨fault, after⟩
    cases fault with
    | some fault => rfl
    | none => exact ih after

/-- What comes of printing depends on the bytes printed only. -/
theorem print_congr (sink : Sink) (first second : Printing Text)
    (same : first.rendering = second.rendering) : sink.print first = sink.print second := by
  have written : sink.writePieces first.pieces = sink.writePieces second.pieces := by
    rw [writePieces_eq_writeAll, writePieces_eq_writeAll]
    exact congrArg sink.writeAll same
  rw [print, print, emit, emit, written]

/-- The same sink with another limit on what one write accepts. -/
def withPortion (sink : Sink) (portion : Option Portion) : Sink := { sink with portion }

/-- The limit on one write changes nothing but itself. -/
theorem writeAll_withPortion (sink : Sink) (portion : Option Portion) (buffer : Bytes) :
    (sink.withPortion portion).writeAll buffer =
      ((sink.writeAll buffer).1, (sink.writeAll buffer).2.withPortion portion) := by
  fun_induction writeAll sink buffer with
  | case1 sink => rw [writeAll_nil]
  | case2 sink byte others refusal due interrupted ih =>
    rw [writeAll_of_interruption (sink.withPortion portion) _ refusal due interrupted (by simp)]
    exact ih
  | case3 sink byte others refusal due final =>
    rw [writeAll_of_refusal (sink.withPortion portion) _ refusal due (by simpa using final)
      (by simp)]
    rfl
  | case4 sink byte others free taken ih =>
    rw [← ih]
    -- the share taken under one limit is as good as any taken under the other
    calc (sink.withPortion portion).writeAll (byte :: others)
      _ = (sink.withPortion portion).writeAll (taken ++ (byte :: others).drop taken.length) := by
        rw [share_append_drop]
      _ = ((sink.accept taken).withPortion portion).writeAll
          ((byte :: others).drop taken.length) :=
        writeAll_of_admits (sink.withPortion portion) taken _ (admits_share sink _ free)

private theorem flush_withPortion (sink : Sink) (portion : Option Portion) :
    (sink.withPortion portion).flush = (sink.flush.1, sink.flush.2.withPortion portion) := by
  obtain ⟨_, _, flushFaults, _, flushes⟩ := sink
  cases flushFaults with
  | nil => rfl
  | cons entry later =>
    -- a flush fails by its count, which no limit on a write changes
    by_cases due : entry.1 = flushes
    · simp [flush, withPortion, due]
    · simp [flush, withPortion, due]

theorem print_withPortion (sink : Sink) (portion : Option Portion) (printing : Printing Text) :
    (sink.withPortion portion).print printing =
      ((sink.print printing).1, (sink.print printing).2.withPortion portion) := by
  simp only [print, emit, writePieces_eq_writeAll, writeAll_withPortion]
  rcases sink.writeAll printing.pieces.flatten with ⟨fault, after⟩
  cases fault with
  | some fault => rfl
  | none => exact flush_withPortion after portion

end Sink

namespace Session

/-- The same session with another limit on what one write accepts. -/
def withPortion (session : Session) (portion : Option Portion) : Session :=
  { session with sink := session.sink.withPortion portion }

theorem step_withPortion (session : Session) (portion : Option Portion) (command : Command) :
    (session.withPortion portion).step command =
      ((session.step command).1, (session.step command).2.withPortion portion) := by
  cases command with
  | read extent => rfl
  | print printing =>
    -- what a printing names is looked up among texts that were read, away from the sink
    have same : (session.withPortion portion).find? = session.find? := by
      funext argument
      cases argument <;> rfl
    simp only [step, same]
    cases printing.mapM session.find? with
    | none => rfl
    | some resolved =>
      simp only [withPortion, Sink.print_withPortion]
      rfl

theorem run_withPortion (session : Session) (portion : Option Portion) (commands : List Command) :
    (session.withPortion portion).run commands =
      ((session.run commands).1, (session.run commands).2.withPortion portion) := by
  induction commands generalizing session with
  | nil => rfl
  | cons command rest ih => simp only [run, step_withPortion, ih]

/-- Printing shows neither the pieces of an operation nor the limit on a write.
On every sink, an operation of several pieces comes to what one operation over
the joined bytes comes to: in the fault reported, and in the sink left with the
bytes it accepted, its flushes and the refusals it still has. In every session,
another limit on what one write accepts leaves every answer as it is. -/
theorem printing_independent_of_pieces :
    (∀ (sink : Sink) (first second : Text),
      sink.print (.printPair first second) =
        sink.print (.println (Text.ofBytes (first.content ++ second.content)))) ∧
    (∀ (sink : Sink) (text : Text) (number : Int64),
      sink.print (.printNumber text number) =
        sink.print (.println (Text.ofBytes (text.content ++ Decimal.render number.toInt)))) ∧
    (∀ (sink : Sink) (text : Text),
      sink.print (.println text) =
        sink.print (.print (Text.ofBytes (text.content ++ [lineFeed])))) ∧
    (∀ (session : Session) (portion : Option Portion) (commands : List Command),
      (session.withPortion portion).run commands =
        ((session.run commands).1, (session.run commands).2.withPortion portion)) := by
  refine ⟨?_, ?_, ?_, run_withPortion⟩
  · intro sink first second
    apply Sink.print_congr
    have joined := Text.content_ofBytes_append first second.content second.zero_not_mem
    simp [joined, -Text.content_ofBytes]
  · intro sink text number
    apply Sink.print_congr
    have joined := Text.content_ofBytes_append text _ (Decimal.zero_not_mem_render number.toInt)
    simp [joined, -Text.content_ofBytes]
  · intro sink text
    apply Sink.print_congr
    have joined := Text.content_ofBytes_append text [lineFeed] (by decide)
    simp [joined, -Text.content_ofBytes]

end Session
end Console
