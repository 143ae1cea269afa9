import Console.Byte
import Console.Fault

/-!
# Sources

A source hands out bytes piece by piece. What it will deliver is a list of
data and faults. Data delivered and not yet consumed stays in `current`; only
when that is used up is the next delivery taken. Data of no bytes is an end of
input that passes: one request finds nothing, the next one goes on.

`Source.unread` is what a reader may still get. Asking for bytes keeps it, and
consuming drops its first bytes.
-/
namespace Console

inductive Delivery where
  | data (bytes : Bytes)
  | failure (fault : Fault)
deriving DecidableEq

namespace Delivery

def bytes : Delivery → Bytes
  | .data bytes => bytes
  | .failure _ => []

def isInterruption : Delivery → Bool
  | .data _ => false
  | .failure fault => fault.isInterruption

/-- An end of input that passes, or a fault other than an interruption. -/
def stops : Delivery → Bool
  | .data bytes => bytes.isEmpty
  | .failure fault => !fault.isInterruption

/-- Puts a delivery in front of others, joining data with data. -/
def join : Delivery → List Delivery → List Delivery
  | .data (first :: others), .data (next :: more) :: later =>
    .data (first :: others ++ next :: more) :: later
  | delivery, later => delivery :: later

/-- Deliveries without interruptions and without cuts inside data. -/
def normalize (deliveries : List Delivery) : List Delivery :=
  (deliveries.filter (!·.isInterruption)).foldr join []

end Delivery

structure Source where
  /-- The most bytes shown by one request. -/
  window : Option Portion := none
  current : Bytes := []
  pending : List Delivery := []
deriving DecidableEq

namespace Source

/-- Bytes that are all at hand. -/
def ofBytes (bytes : Bytes) : Source := { current := bytes }

instance : Coe Bytes Source where
  coe := ofBytes

def ofFault (fault : Fault) : Source := { pending := [.failure fault] }

def unread (source : Source) : Bytes :=
  source.current ++ source.pending.flatMap Delivery.bytes

/-- One request for bytes. Nothing is consumed. -/
def fill (source : Source) : Except Fault Bytes × Source :=
  match source with
  | { window, current := [], pending := .failure fault :: pending } =>
    (.error fault, { window, current := [], pending })
  | { window, current := [], pending := .data current :: pending } =>
    (.ok (Portion.cut window current), { window, current, pending })
  -- no delivery is taken while there is data at hand, or when none is left
  | source => (.ok (Portion.cut source.window source.current), source)

/-- Passes over the interruptions that the next requests would meet. -/
def settle (source : Source) : Source :=
  match source with
  | { window, current := [], pending } =>
    { window, current := [], pending := pending.dropWhile Delivery.isInterruption }
  | source => source

/-- A request that is made again for as long as it is interrupted. -/
def await (source : Source) : Except Fault Bytes × Source := source.settle.fill

def consume (source : Source) (count : Nat) : Source :=
  { source with current := source.current.drop count }

private theorem flatMap_bytes_dropWhile (deliveries : List Delivery) :
    (deliveries.dropWhile Delivery.isInterruption).flatMap Delivery.bytes =
      deliveries.flatMap Delivery.bytes := by
  induction deliveries with
  | nil => rfl
  | cons delivery later ih =>
    cases delivery with
    | data bytes => simp [Delivery.isInterruption]
    | failure fault =>
      cases interrupted : fault.isInterruption with
      | false => simp [Delivery.isInterruption, interrupted]
      | true =>
        simpa [List.dropWhile_cons, Delivery.isInterruption, Delivery.bytes, interrupted] using ih

@[simp]
theorem unread_settle (source : Source) : source.settle.unread = source.unread := by
  match source with
  | { window, current := [], pending } =>
    simpa [settle, unread] using flatMap_bytes_dropWhile pending
  | { window, current := byte :: rest, pending } => rfl

@[simp]
theorem unread_fill (source : Source) : source.fill.2.unread = source.unread := by
  unfold fill
  split <;> simp [unread, Delivery.bytes]

@[simp]
theorem unread_await (source : Source) : source.await.2.unread = source.unread := by
  simp [await]

theorem fill_ok (source : Source) (shown : Bytes) (after : Source)
    (filled : source.fill = (.ok shown, after)) :
    shown = Portion.cut after.window after.current := by
  unfold fill at filled
  split at filled
  · simp at filled
  · simp only [Prod.mk.injEq, Except.ok.injEq] at filled
    obtain ⟨same, rfl⟩ := filled
    exact same.symm
  · simp only [Prod.mk.injEq, Except.ok.injEq] at filled
    obtain ⟨same, rfl⟩ := filled
    exact same.symm

theorem unread_eq_append_consume (source : Source) (taken rest : Bytes) (after : Source)
    (awaited : source.await = (.ok (taken ++ rest), after)) :
    source.unread = taken ++ (after.consume taken.length).unread := by
  have kept : after.unread = source.unread := by
    have same := unread_await source
    rwa [awaited] at same
  have beginning : taken ++ rest <+: after.current := by
    rw [fill_ok _ _ _ awaited]
    exact Portion.cut_isPrefix _ _
  obtain ⟨more, current⟩ := beginning
  rw [← kept]
  simp [consume, unread, ← current, List.append_assoc]

theorem unread_consume_lt (source : Source) (shown after)
    (awaited : source.await = (.ok shown, after)) (nonempty : shown ≠ []) :
    (after.consume shown.length).unread.length < source.unread.length := by
  rw [unread_eq_append_consume source shown [] after (by simpa using awaited)]
  have positive := List.length_pos_iff.mpr nonempty
  simp only [List.length_append]
  omega

end Source
end Console
