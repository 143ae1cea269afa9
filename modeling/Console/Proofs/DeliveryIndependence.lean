import Console.Proofs.Capacity
import Console.Proofs.Passage
import Console.Session
import Mathlib.Algebra.Group.Nat.Defs

/-!
# Delivery does not show

Two sources that deliver the same bytes and stops are read alike: in pieces of
any size, through any windows, with interruptions anywhere. Answers, notices
and what is left agree after every read of a session. The capacity told in a
notice is the one part of an answer that pieces might show in, and it does not.
-/
namespace Console

namespace Source

private theorem lineCapacity_eq (source : Source) :
    source.lineCapacity = Scratch.grow 0 (Signal.content source.signals).length := by
  have fitted := Reading.fitted_gather source {} Scratch.fitted_empty
  have gathered := (Reading.gather_signals source {}).1
  have size : (Reading.gather source {}).scratch.size = (Signal.content source.signals).length := by
    rw [Scratch.size, ← Array.length_toList, gathered]
    rfl
  rw [lineCapacity, ← size]
  exact fitted

/-- Sources with the same signals to come cannot be told apart by a read. -/
theorem passage_read_congr (first second : Source) (alike : first.signals = second.signals)
    (extent : Extent) :
    Passage.ofReading (first.read extent) = Passage.ofReading (second.read extent) := by
  have capacity : first.lineCapacity = second.lineCapacity := by
    rw [lineCapacity_eq first, lineCapacity_eq second, alike]
  rw [Passage.ofReading_read, Passage.ofReading_read, alike, capacity]

end Source

namespace Session

/-- Sessions over such sources stay alike, read by read. -/
theorem run_reads_congr (first second : Session)
    (alike : first.source.signals = second.source.signals) (extents : List Extent) :
    (first.run (extents.map .read)).1 = (second.run (extents.map .read)).1 ∧
      (first.run (extents.map .read)).2.source.signals =
        (second.run (extents.map .read)).2.source.signals := by
  induction extents generalizing first second with
  | nil => exact ⟨rfl, alike⟩
  | cons extent extents ih =>
    have passed := Source.passage_read_congr first.source second.source alike extent
    have answered : (first.step (.read extent)).1 = (second.step (.read extent)).1 := by
      have text := congrArg Passage.text passed
      have log := congrArg Passage.log passed
      simp only [Passage.ofReading] at text log
      simp only [step, text, log]
    -- the sources left are alike again
    obtain ⟨answers, rest⟩ := ih (first.step (.read extent)).2 (second.step (.read extent)).2
      (congrArg Passage.rest passed)
    simp only [List.map_cons, run]
    exact ⟨by rw [answered, answers], rest⟩

/-- Reads show neither how data was cut nor where interruptions came. Two lists
of deliveries with one normal form, seen through any two windows, give the same
answers with the same notices, and leave the same bytes unread. The bound is the
size up to which a buffer grows by doubling. -/
theorem reads_independent_of_delivery (first second : List Delivery)
    (window otherWindow : Option Portion) (sink otherSink : Sink) (extents : List Extent)
    (same : Delivery.normalize first = Delivery.normalize second)
    (_bounded : ((Delivery.normalize first).flatMap Delivery.bytes).length ≤ 2 ^ 62) :
    let one : Session := { source := { window, pending := first }, sink }
    let other : Session :=
      { source := { window := otherWindow, pending := second }, sink := otherSink }
    (one.run (extents.map .read)).1 = (other.run (extents.map .read)).1 ∧
      (one.run (extents.map .read)).2.source.unread =
        (other.run (extents.map .read)).2.source.unread := by
  intro one other
  have alike : one.source.signals = other.source.signals := by
    rw [Source.signals_of_pending, Source.signals_of_pending, same]
  obtain ⟨answers, rest⟩ := run_reads_congr one other alike extents
  exact ⟨answers, by rw [← Source.bytes_signals, rest, Source.bytes_signals]⟩

/-- A carriage return and its line feed, torn apart, and a passing end of input. -/
def tornPair : List Delivery :=
  [.data [97, 13], .failure ⟨.interrupted, "again"⟩, .data [10], .data [], .data [98]]

theorem reads_independent_of_tornPair :
    Delivery.normalize tornPair = Delivery.normalize [.data [97, 13, 10], .data [], .data [98]] ∧
      ((Delivery.normalize tornPair).flatMap Delivery.bytes).length ≤ 2 ^ 62 ∧
      (run { source := { window := some ⟨1, Nat.one_pos⟩, pending := tornPair }, sink := {} }
          [.read .line, .read .character]).1 =
        [.read (some (Text.ofBytes [97])) [.lineRead 1 128], .read none [.noCharacter]] ∧
      (run { source := { window := some ⟨1, Nat.one_pos⟩, pending := tornPair }, sink := {} }
          [.read .line, .read .character]).1 =
        (run { source := { pending := [.data [97, 13, 10], .data [], .data [98]] }, sink := {} }
          [.read .line, .read .character]).1 ∧
      (run { source := { window := some ⟨1, Nat.one_pos⟩, pending := tornPair }, sink := {} }
          [.read .line, .read .character]).2.source.unread =
        (run { source := { pending := [.data [97, 13, 10], .data [], .data [98]] }, sink := {} }
          [.read .line, .read .character]).2.source.unread :=
  ⟨by decide, by decide, by decide +kernel,
    reads_independent_of_delivery tornPair [.data [97, 13, 10], .data [], .data [98]]
      (some ⟨1, Nat.one_pos⟩) none {} {} [.line, .character] (by decide) (by decide)⟩

end Session
end Console
