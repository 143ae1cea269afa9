import Console.Reading

/-!
# What a reader meets

A source has deliveries of any size, a window and interruptions. A reader that
waits while it is interrupted meets none of these: it meets signals, one after
the other, each a byte or a stop. A source is known to its readers by the
signals to come, and this module says what a request does to them.
-/
namespace Console

/-- What a reader meets: a byte, or a stop. A stop is a fault that is no
interruption, or else an end of input that passes. -/
inductive Signal where
  | byte (value : UInt8)
  | stop (fault : Option Fault)
deriving DecidableEq

namespace Signal

def byte? : Signal → Option UInt8
  | .byte value => some value
  | .stop _ => none

/-- The signals of bytes that come without a stop. -/
def ofBytes (bytes : Bytes) : List Signal := bytes.map .byte

/-- The bytes among signals. -/
def bytes (signals : List Signal) : Bytes := signals.filterMap byte?

@[simp]
theorem ofBytes_nil : ofBytes [] = [] := rfl

@[simp]
theorem ofBytes_cons (value : UInt8) (rest : Bytes) :
    ofBytes (value :: rest) = .byte value :: ofBytes rest := rfl

@[simp]
theorem ofBytes_append (first second : Bytes) :
    ofBytes (first ++ second) = ofBytes first ++ ofBytes second :=
  List.map_append

@[simp]
theorem bytes_nil : bytes [] = [] := rfl

@[simp]
theorem bytes_byte (value : UInt8) (later : List Signal) :
    bytes (.byte value :: later) = value :: bytes later := rfl

@[simp]
theorem bytes_stop (fault : Option Fault) (later : List Signal) :
    bytes (.stop fault :: later) = bytes later := rfl

@[simp]
theorem bytes_append (first second : List Signal) :
    bytes (first ++ second) = bytes first ++ bytes second :=
  List.filterMap_append

@[simp]
theorem bytes_ofBytes (content : Bytes) : bytes (ofBytes content) = content := by
  induction content with
  | nil => rfl
  | cons value rest ih => simp [ih]

end Signal

/-- A delivery as a reader meets it; an interruption is not met at all. -/
def Delivery.signals : Delivery → List Signal
  | .data [] => [.stop none]
  | .data (first :: others) => Signal.ofBytes (first :: others)
  | .failure fault => if fault.isInterruption then [] else [.stop (some fault)]

/-- All that a reader of a source has still to meet. -/
def Source.signals (source : Source) : List Signal :=
  Signal.ofBytes source.current ++ source.pending.flatMap Delivery.signals

namespace Delivery

@[simp]
theorem bytes_signals (delivery : Delivery) : Signal.bytes delivery.signals = delivery.bytes := by
  rcases delivery with bytes | fault
  · cases bytes with
    | nil => rfl
    | cons first others => exact Signal.bytes_ofBytes (first :: others)
  · simp only [signals]
    split <;> rfl

theorem bytes_flatMap_signals (deliveries : List Delivery) :
    Signal.bytes (deliveries.flatMap signals) = deliveries.flatMap bytes := by
  induction deliveries with
  | nil => rfl
  | cons delivery later ih => simp [ih]

theorem stops_of_mem_signals (delivery : Delivery) (fault : Option Fault)
    (member : .stop fault ∈ delivery.signals) : delivery.stops = true := by
  rcases delivery with bytes | failure
  · cases bytes with
    | nil => rfl
    | cons first others => simp [signals, Signal.ofBytes] at member
  · simp only [signals] at member
    split at member
    next => simp at member
    next final => simpa [stops] using final

private theorem signals_of_interruption (delivery : Delivery)
    (interrupted : delivery.isInterruption = true) : delivery.signals = [] := by
  cases delivery with
  | data bytes => simp [isInterruption] at interrupted
  | failure fault => exact if_pos interrupted

/-- Data joined with data comes as the same bytes. -/
private theorem flatMap_signals_join (delivery : Delivery) (later : List Delivery) :
    (join delivery later).flatMap signals = delivery.signals ++ later.flatMap signals := by
  unfold join
  split
  · simp [signals]
  · exact List.flatMap_cons

/-- A reader cannot tell deliveries from their normal form. -/
theorem flatMap_signals_normalize (deliveries : List Delivery) :
    (normalize deliveries).flatMap signals = deliveries.flatMap signals := by
  unfold normalize
  induction deliveries with
  | nil => rfl
  | cons delivery later ih =>
    by_cases interrupted : delivery.isInterruption = true
    · simp only [List.filter_cons, interrupted, Bool.not_true, Bool.false_eq_true, if_false, ih,
        List.flatMap_cons, signals_of_interruption delivery interrupted, List.nil_append]
    · simp only [Bool.not_eq_true] at interrupted
      simp only [List.filter_cons, interrupted, Bool.not_false, if_true, List.foldr_cons,
        flatMap_signals_join, ih, List.flatMap_cons]

end Delivery

namespace Source

@[simp]
theorem bytes_signals (source : Source) : Signal.bytes source.signals = source.unread := by
  simp only [signals, unread, Signal.bytes_append, Signal.bytes_ofBytes,
    Delivery.bytes_flatMap_signals]

theorem signals_of_pending (window : Option Portion) (pending : List Delivery) :
    ({ window, pending } : Source).signals =
      (Delivery.normalize pending).flatMap Delivery.signals := by
  rw [Delivery.flatMap_signals_normalize]
  rfl

private theorem flatMap_signals_dropWhile (deliveries : List Delivery) :
    (deliveries.dropWhile Delivery.isInterruption).flatMap Delivery.signals =
      deliveries.flatMap Delivery.signals := by
  induction deliveries with
  | nil => rfl
  | cons delivery later ih =>
    rw [List.dropWhile_cons]
    split
    next interrupted =>
      rw [ih, List.flatMap_cons, Delivery.signals_of_interruption delivery interrupted,
        List.nil_append]
    next => rfl

@[simp]
theorem signals_settle (source : Source) : source.settle.signals = source.signals := by
  match source with
  | { window, current := [], pending } =>
    simpa [settle, signals] using flatMap_signals_dropWhile pending
  | { window, current := byte :: rest, pending } => rfl

/-- What a request can come to when `signals` are to be met. Bytes are only shown
by it, and all else that it meets is taken. -/
inductive Met (signals : List Signal) : Except Fault Bytes × Source → Prop
  | fault (cause : Fault) (after : Source)
      (taken : signals = .stop (some cause) :: after.signals) : Met signals (.error cause, after)
  | passing (after : Source) (taken : signals = .stop none :: after.signals) :
      Met signals (.ok [], after)
  | nothing (after : Source) (finished : signals = []) (still : after.signals = []) :
      Met signals (.ok [], after)
  | bytes (shown : Bytes) (after : Source) (nonempty : shown ≠ [])
      (beginning : shown <+: after.current) (kept : signals = after.signals) :
      Met signals (.ok shown, after)

private theorem met_fill (source : Source)
    (settled : source.current = [] → source.pending.head?.any Delivery.isInterruption = false) :
    Met source.signals source.fill := by
  obtain ⟨window, current, pending⟩ := source
  have shows (first : UInt8) (others : Bytes) : Portion.cut window (first :: others) ≠ [] :=
    fun empty => List.cons_ne_nil _ _ ((Portion.cut_eq_nil _ _).mp empty)
  have hidden : Portion.cut window [] = [] := (Portion.cut_eq_nil window []).mpr rfl
  cases current with
  | cons first others =>
    exact .bytes _ _ (shows first others) (Portion.cut_isPrefix _ _) rfl
  | nil =>
    cases pending with
    | nil =>
      simp only [fill, hidden]
      exact .nothing _ rfl rfl
    | cons delivery later =>
      cases delivery with
      | failure cause =>
        have final : cause.isInterruption = false := by
          simpa [Delivery.isInterruption] using settled rfl
        exact .fault _ _ (by simp [signals, Delivery.signals, final])
      | data bytes =>
        cases bytes with
        | nil =>
          simp only [fill, hidden]
          exact .passing _ (by simp [signals, Delivery.signals])
        | cons first others =>
          exact .bytes _ _ (shows first others) (Portion.cut_isPrefix _ _)
            (by simp [signals, Delivery.signals])

theorem met_await (source : Source) : Met source.signals source.await := by
  -- waiting passes over interruptions only, and these are no signals
  rw [← signals_settle source]
  apply met_fill
  intro empty
  match source with
  | { window, current := [], pending } =>
    have stopped := List.head?_dropWhile_not Delivery.isInterruption pending
    simp only [settle]
    cases next : (pending.dropWhile Delivery.isInterruption).head? with
    | none => rfl
    | some delivery => simpa [next] using stopped
  | { window, current := byte :: rest, pending } => simp [settle] at empty

theorem signals_of_await_error (source : Source) (fault : Fault) (after : Source)
    (awaited : source.await = (.error fault, after)) :
    source.signals = .stop (some fault) :: after.signals := by
  have met := met_await source
  rw [awaited] at met
  cases met with
  | fault _ _ taken => exact taken

theorem signals_of_await_nil (source after : Source) (awaited : source.await = (.ok [], after)) :
    source.signals = .stop none :: after.signals ∨ (source.signals = [] ∧ after.signals = []) := by
  have met := met_await source
  rw [awaited] at met
  cases met with
  | passing _ taken => exact Or.inl taken
  | nothing _ finished still => exact Or.inr ⟨finished, still⟩
  | bytes _ _ nonempty => exact absurd rfl nonempty

/-- Consuming some of the bytes that a request shows leaves the others. -/
theorem signals_of_await_ok (source : Source) (taken rest : Bytes) (after : Source)
    (awaited : source.await = (.ok (taken ++ rest), after)) (shown : taken ++ rest ≠ []) :
    source.signals = Signal.ofBytes taken ++ (after.consume taken.length).signals := by
  have met := met_await source
  rw [awaited] at met
  obtain ⟨⟨more, current⟩, kept⟩ :
      taken ++ rest <+: after.current ∧ source.signals = after.signals := by
    generalize taken ++ rest = bytes at met shown
    cases met with
    | passing _ | nothing _ => exact absurd rfl shown
    | bytes _ _ _ beginning kept => exact ⟨beginning, kept⟩
  rw [kept]
  simp [signals, consume, ← current, List.append_assoc]

end Source
end Console
