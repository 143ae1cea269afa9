import Console.Proofs.Calls
import Console.Proofs.Ledger

/-!
# The ledger is right

A ledger tracks a machine if both have the same input to come and every slot
has an address that leads to what the ledger says. No two slots have the same
block, so a change through one of them is a change to one entry.

A call on a machine that is tracked comes to what the ledger tells: it returns,
or is fatal, or breaks a rule on memory. After it the machine is tracked again.
So the answers to any calls are those of the ledger, and memory and addresses
need not be looked at any more.
-/
namespace Console

namespace Script

open Machine

/-- An address leads to what its holder takes it to lead to. -/
inductive Stands (heap : Heap) : Pointer → Holding → Prop
  | null : Stands heap .null .null
  | constant (text : Text) : Stands heap (.constant text) (.live text)
  | live (block : Nat) (text : Text) (loaded : heap.load? block = some text.terminated) :
    Stands heap (.block block) (.live text)
  | released (block : Nat) (inside : block < heap.blocks.size) (gone : heap.load? block = none) :
    Stands heap (.block block) .released

/-- A ledger is right about a machine and the addresses in the slots. -/
structure Tracks (ledger : Ledger) (machine : Machine) (slots : Array Pointer) : Prop where
  input : machine.input = ledger.input
  size : slots.size = ledger.holdings.size
  stands : ∀ (index : Nat) pointer holding, slots[index]? = some pointer →
    ledger.holdings[index]? = some holding → Stands machine.heap pointer holding
  /-- No two slots have the same block. -/
  apart : ∀ (first second block : Nat), slots[first]? = some (.block block) →
    slots[second]? = some (.block block) → first = second
  /-- Only what was read is in a slot. -/
  handed : ∀ (index : Nat) text, slots[index]? ≠ some (.constant text)

theorem tracks_empty (input : Input) (output : Output) :
    Tracks { input } { input, output } #[] where
  input := rfl
  size := rfl
  stands := by simp
  apart := by simp
  handed := by simp

variable {ledger : Ledger} {machine : Machine} {slots : Array Pointer}

section Stands

variable {heap : Heap} {pointer : Pointer} {holding : Holding}

/-- What happens to other blocks does not matter. -/
theorem Stands.frame (stands : Stands heap pointer holding) (after : Heap)
    (grown : heap.blocks.size ≤ after.blocks.size)
    (kept : ∀ block, pointer = .block block → block < heap.blocks.size →
      after.load? block = heap.load? block) : Stands after pointer holding := by
  cases stands with
  | null => exact .null
  | constant text => exact .constant text
  | live block text loaded =>
    have inside := heap.lt_size_of_load? block _ loaded
    exact .live block text ((kept block rfl inside).trans loaded)
  | released block inside gone =>
    exact .released block (Nat.lt_of_lt_of_le inside grown) ((kept block rfl inside).trans gone)

theorem Stands.lt_size {block : Nat} (stands : Stands heap (.block block) holding) :
    block < heap.blocks.size := by
  cases stands with
  | live _ text loaded => exact heap.lt_size_of_load? block _ loaded
  | released _ inside gone => exact inside

end Stands

namespace Tracks

theorem ne_block_size (tracks : Tracks ledger machine slots) (index : Nat) :
    slots[index]? ≠ some (.block machine.heap.blocks.size) := by
  intro found
  cases held : ledger.holdings[index]? with
  | none =>
    have outside := Array.getElem?_eq_none_iff.mp held
    rw [← tracks.size, ← Array.getElem?_eq_none_iff, found] at outside
    cases outside
  | some holding => exact Nat.lt_irrefl _ (tracks.stands index _ holding found held).lt_size

/-- Changes that leave memory and the input alone need no notice in the ledger. -/
theorem of_same (tracks : Tracks ledger machine slots) (after : Machine)
    (input : after.input = machine.input) (heap : after.heap = machine.heap) :
    Tracks ledger after slots where
  input := input.trans tracks.input
  size := tracks.size
  stands := heap ▸ tracks.stands
  apart := tracks.apart
  handed := tracks.handed

/-- A change to the block of one slot is a change to what that slot holds. -/
theorem change (tracks : Tracks ledger machine slots) (index block : Nat) (after : Heap)
    (alter : Holding → Holding) (slot : slots[index]? = some (.block block))
    (same : after.blocks.size = machine.heap.blocks.size)
    (kept : ∀ other, other ≠ block → after.load? other = machine.heap.load? other)
    (altered : ∀ holding, ledger.holdings[index]? = some holding →
      Stands after (.block block) (alter holding)) :
    Tracks (ledger.update (.slot index) alter) { machine with heap := after } slots where
  input := tracks.input
  size := by simpa [Ledger.update] using tracks.size
  stands := by
    intro other pointer holding found held
    simp only [Ledger.update, Array.getElem?_modify] at held
    split at held
    next here =>
      subst here
      obtain ⟨before, was, rfl⟩ := Option.map_eq_some_iff.mp held
      rw [slot, Option.some.injEq] at found
      exact found ▸ altered before was
    next elsewhere =>
      -- another slot with this block would be this slot
      apply (tracks.stands other pointer holding found held).frame after (Nat.le_of_eq same.symm)
      rintro taken rfl -
      apply kept
      rintro rfl
      exact elsewhere (tracks.apart index other taken slot found)
  apart := tracks.apart
  handed := tracks.handed

/-- What a read returns goes to a new slot. -/
theorem push (tracks : Tracks ledger machine slots) (pointer : Pointer) (holding : Holding)
    (after : Machine) (stands : Stands after.heap pointer holding)
    (grown : machine.heap.blocks.size ≤ after.heap.blocks.size)
    (kept : ∀ block, block < machine.heap.blocks.size →
      after.heap.load? block = machine.heap.load? block)
    (new : pointer = .null ∨ pointer = .block machine.heap.blocks.size) :
    Tracks { input := after.input, holdings := ledger.holdings.push holding } after
      (slots.push pointer) where
  input := rfl
  size := by simpa using tracks.size
  stands := by
    intro index other held found there
    rw [Array.getElem?_push, tracks.size] at found
    rw [Array.getElem?_push] at there
    split at found
    next last =>
      rw [if_pos last] at there
      cases found
      cases there
      exact stands
    next inside =>
      rw [if_neg inside] at there
      exact (tracks.stands index other held found there).frame after.heap grown
        fun block _ below => kept block below
  apart := by
    intro first second block one two
    rw [Array.getElem?_push] at one two
    -- a new block is the block of no slot yet
    have fresh (index : Nat) (found : slots[index]? = some (.block block)) :
        pointer ≠ .block block := by
      rintro rfl
      rcases new with null | last
      · cases null
      · exact tracks.ne_block_size index (last ▸ found)
    split at one <;> split at two
    next here there => exact here.trans there.symm
    next => exact absurd (Option.some.inj one) (fresh second two)
    next => exact absurd (Option.some.inj two) (fresh first one)
    next => exact tracks.apart first second block one two
  handed := by
    intro index text found
    rw [Array.getElem?_push] at found
    split at found
    next =>
      cases found
      rcases new with null | last
      · cases null
      · cases last
    next => exact tracks.handed index text found

/-- A slot that was filled has an address that leads to what the ledger says. -/
theorem point_of_slot (tracks : Tracks ledger machine slots) (index : Nat) (holding : Holding)
    (found : ledger.holdings[index]? = some holding) :
    ∃ pointer, slots[index]? = some pointer ∧ point slots (.slot index) = pure pointer ∧
      Stands machine.heap pointer holding := by
  have inside : index < slots.size := by
    rw [tracks.size]
    exact (Array.getElem?_eq_some_iff.mp found).1
  have slot : slots[index]? = some slots[index] := Array.getElem?_eq_getElem inside
  refine ⟨slots[index], slot, ?_, tracks.stands index _ holding slot found⟩
  rw [point, slot]
  rfl

/-- An operand is found where the ledger finds it. -/
theorem point_of_find (tracks : Tracks ledger machine slots) (operand : Operand)
    (holding : Holding) (found : ledger.find? operand = some holding) :
    ∃ pointer, point slots operand = pure pointer ∧ Stands machine.heap pointer holding := by
  cases operand with
  | bytes bytes =>
    cases found
    exact ⟨_, rfl, .constant _⟩
  | null =>
    cases found
    exact ⟨_, rfl, .null⟩
  | slot index =>
    obtain ⟨pointer, -, pointed, stands⟩ := tracks.point_of_slot index holding found
    exact ⟨pointer, pointed, stands⟩

theorem point_of_missing (tracks : Tracks ledger machine slots) (operand : Operand)
    (missing : ledger.find? operand = none) : point slots operand = throw .misuse := by
  cases operand with
  | bytes bytes => cases missing
  | null => cases missing
  | slot index =>
    have outside : slots[index]? = none := by
      rw [Array.getElem?_eq_none_iff, tracks.size]
      exact Array.getElem?_eq_none_iff.mp missing
    rw [point, outside]
    rfl

/-- What may not be used is a slot that was not filled, or a block that is gone. -/
theorem point_of_unusable (tracks : Tracks ledger machine slots) (operand : Operand)
    (unusable : ledger.isUsable operand = false) :
    point slots operand = throw .misuse ∨
      ∃ block, point slots operand = pure (.block block) ∧ machine.heap.load? block = none := by
  cases found : ledger.find? operand with
  | none => exact Or.inl (tracks.point_of_missing operand found)
  | some holding =>
    obtain ⟨pointer, pointed, stands⟩ := tracks.point_of_find operand holding found
    cases stands with
    | null => simp [Ledger.isUsable, Ledger.isNull, found] at unusable
    | constant text | live block text loaded =>
      simp [Ledger.isUsable, Ledger.text?, Holding.text?, found] at unusable
    | released block inside gone => exact Or.inr ⟨block, pointed, gone⟩

/-- Whatever is done with an operand that may not be used is a misuse, if it loads the block. -/
theorem misuse_of_unusable {α : Type} (tracks : Tracks ledger machine slots) (operand : Operand)
    (unusable : ledger.isUsable operand = false) (next : Pointer → Program α)
    (loads : ∀ block, machine.heap.load? block = none →
      next (.block block) machine = .error .misuse machine) :
    (point slots operand >>= next) machine = .error .misuse machine := by
  rcases tracks.point_of_unusable operand unusable with missing | ⟨block, pointed, gone⟩
  · rw [missing]
    rfl
  · rw [pointed, pure_bind]
    exact loads block gone

end Tracks

/-! ## Looking for texts -/

/-- What borrowing comes to. -/
def Holding.lend (operation : String) : Holding → Program Text
  | .null => abort (.nullText operation)
  | .live text => return text
  | .released => throw .misuse

theorem borrow_of_stands (operation : String) (pointer : Pointer) (holding : Holding)
    (stands : Stands machine.heap pointer holding) :
    borrow operation pointer machine = holding.lend operation machine := by
  cases stands with
  | null => rfl
  | constant text => rfl
  | live block text loaded =>
    apply borrow_of_text
    rw [text?, loaded, Option.map_some, Text.ofMemory_terminated]
  | released block inside gone => exact bind_of_error (load_of_gone machine block gone) _

/-- Looks for the text that an operand leads to. -/
def fetch (slots : Array Pointer) (operation : String) (operand : Operand) : Program Text :=
  point slots operand >>= borrow operation

namespace Tracks

theorem fetch_of_find (tracks : Tracks ledger machine slots) (operation : String)
    (operand : Operand) (holding : Holding) (found : ledger.find? operand = some holding) :
    fetch slots operation operand machine = holding.lend operation machine := by
  obtain ⟨pointer, pointed, stands⟩ := tracks.point_of_find operand holding found
  rw [fetch, pointed, pure_bind]
  exact borrow_of_stands operation pointer holding stands

theorem fetch_of_text (tracks : Tracks ledger machine slots) (operation : String)
    (operand : Operand) (text : Text) (found : ledger.text? operand = some text) :
    fetch slots operation operand machine = .ok text machine := by
  obtain ⟨holding, here, live⟩ := Option.bind_eq_some_iff.mp found
  cases holding with
  | null | released => cases live
  | live content =>
    cases live
    exact tracks.fetch_of_find operation operand _ here

theorem fetch_of_null (tracks : Tracks ledger machine slots) (operation : String)
    (operand : Operand) (null : ledger.isNull operand = true) :
    fetch slots operation operand machine =
      .error (.fatal (.nullText operation)) (machine.note [.fatal (.nullText operation)]) :=
  tracks.fetch_of_find operation operand .null (beq_iff_eq.mp null)

theorem fetch_of_unusable (tracks : Tracks ledger machine slots) (operation : String)
    (operand : Operand) (unusable : ledger.isUsable operand = false) :
    fetch slots operation operand machine = .error .misuse machine :=
  tracks.misuse_of_unusable operand unusable (borrow operation) fun block gone =>
    bind_of_error (load_of_gone machine block gone) _

end Tracks

/-- Prints texts and returns nothing. -/
def finish (slots : Array Pointer) (printing : Printing Text) : Program (Result × Array Pointer) := do
  emit printing
  return (.done, slots)

theorem perform_print (slots : Array Pointer) (text : Operand) :
    perform slots (.print text) =
      fetch slots "print" text >>= fun content => finish slots (.print content) := by
  simp [perform, fetch, finish, Machine.print, Printing.mapM, Printing.name]

theorem perform_println (slots : Array Pointer) (text : Operand) :
    perform slots (.println text) =
      fetch slots "println" text >>= fun content => finish slots (.println content) := by
  simp [perform, fetch, finish, Machine.print, Printing.mapM, Printing.name]

theorem perform_printNumber (slots : Array Pointer) (text : Operand) (number : Int32) :
    perform slots (.printNumber text number) = fetch slots "printn" text >>= fun content =>
      finish slots (.printNumber content number.toInt64) := by
  simp [perform, fetch, finish, Machine.print, Printing.mapM, Printing.name]

theorem perform_textLength (slots : Array Pointer) (text : Operand) :
    perform slots (.textLength text) =
      fetch slots "textlen" text >>= fun content => pure (.length content.length, slots) := by
  simp [perform, fetch, Machine.textLength]

theorem perform_printPair (tracks : Tracks ledger machine slots) (first second : Operand)
    (one : (ledger.find? first).isSome = true) (other : (ledger.find? second).isSome = true) :
    perform slots (.printPair first second) =
      fetch slots "prints" first >>= fun one => fetch slots "prints" second >>= fun other =>
        finish slots (.printPair one other) := by
  obtain ⟨holding, found⟩ := Option.isSome_iff_exists.mp one
  obtain ⟨pointer, pointed, -⟩ := tracks.point_of_find first holding found
  obtain ⟨holding, found⟩ := Option.isSome_iff_exists.mp other
  obtain ⟨address, addressed, -⟩ := tracks.point_of_find second holding found
  simp [perform, fetch, finish, Machine.print, Printing.mapM, Printing.name, pointed, addressed]

/-! ## Calls that halt -/

/-- A fatal call stops at once. -/
theorem perform_of_fatal (tracks : Tracks ledger machine slots) (call : Call)
    (permitted : ledger.permits call = true) (fatal : ledger.isFatal call = true) :
    perform slots call machine = .error (.fatal (.nullText call.operation))
      (machine.note [.fatal (.nullText call.operation)]) := by
  cases call with
  | print text | println text | printNumber text number | textLength text =>
    simp only [perform_print, perform_println, perform_printNumber, perform_textLength]
    exact bind_of_error (tracks.fetch_of_null _ text fatal) _
  | printPair first second =>
    simp only [Ledger.permits, Ledger.isFatal, Bool.and_eq_true, Bool.or_eq_true] at permitted fatal
    obtain ⟨⟨usable, named⟩, -⟩ := permitted
    obtain ⟨holding, here, -⟩ := ledger.find?_of_isUsable first usable
    rw [perform_printPair tracks first second (by rw [here]; rfl) named]
    cases null : ledger.isNull first with
    | true => exact bind_of_error (tracks.fetch_of_null _ first null) _
    | false =>
      obtain ⟨text, found⟩ := ledger.text?_of_isUsable first usable null
      have missing : ledger.isNull second = true := by simpa [null] using fatal
      exact (bind_of_ok (tracks.fetch_of_text _ first text found) _).trans
        (bind_of_error (tracks.fetch_of_null _ second missing) _)
  | printInteger number | read extent | free text | poke text offset byte | peek text =>
    cases fatal

theorem printPair_of_forbidden (tracks : Tracks ledger machine slots) (first second : Operand)
    (forbidden : ledger.permits (.printPair first second) = false) :
    perform slots (.printPair first second) machine = .error .misuse machine := by
  -- both addresses are looked up before either text is
  cases one : ledger.find? first with
  | none =>
    rw [perform, tracks.point_of_missing first one]
    rfl
  | some holding =>
    cases other : ledger.find? second with
    | none =>
      obtain ⟨pointer, pointed, -⟩ := tracks.point_of_find first holding one
      rw [perform, pointed, pure_bind, tracks.point_of_missing second other]
      rfl
    | some another =>
      rw [perform_printPair tracks first second (by rw [one]; rfl) (by rw [other]; rfl)]
      cases usable : ledger.isUsable first with
      | false => exact bind_of_error (tracks.fetch_of_unusable _ first usable) _
      | true =>
        -- the second text was looked at, so the first was not null
        simp only [Ledger.permits, usable, other, Option.isSome_some, Bool.and_self,
          Bool.true_and, Bool.or_eq_false_iff] at forbidden
        obtain ⟨text, found⟩ := ledger.text?_of_isUsable first usable forbidden.1
        exact (bind_of_ok (tracks.fetch_of_text _ first text found) _).trans
          (bind_of_error (tracks.fetch_of_unusable _ second forbidden.2) _)

theorem poke_of_forbidden (tracks : Tracks ledger machine slots) (index offset : Nat)
    (byte : UInt8) (forbidden : ledger.permits (.poke (.slot index) offset byte) = false) :
    perform slots (.poke (.slot index) offset byte) machine = .error .misuse machine := by
  cases found : ledger.find? (.slot index) with
  | none =>
    rw [perform, tracks.point_of_missing _ found]
    rfl
  | some holding =>
    obtain ⟨pointer, pointed, stands⟩ := tracks.point_of_find _ holding found
    rw [perform, pointed, pure_bind]
    apply bind_of_error
    cases stands with
    | null => rfl
    | constant content => rfl
    | released block inside gone => exact bind_of_error (load_of_gone machine block gone) _
    | live block content loaded =>
      -- the text is there, so it is the offset or the byte that is not allowed
      have outside : ¬ (offset < content.length ∧ byte ≠ 0) := by
        simpa [Ledger.permits, Ledger.text?, Holding.text?, found] using forbidden
      refine (bind_of_ok (load_of_live machine block _ loaded) _).trans ?_
      rw [Text.lengthBeforeZero_terminated, if_neg outside]
      rfl

/-- A call that breaks the rules on memory has no result. -/
theorem perform_of_forbidden (tracks : Tracks ledger machine slots) (call : Call)
    (forbidden : ledger.permits call = false) :
    perform slots call machine = .error .misuse machine := by
  cases call with
  | print text | println text | printNumber text number | textLength text =>
    simp only [perform_print, perform_println, perform_printNumber, perform_textLength]
    exact bind_of_error (tracks.fetch_of_unusable _ text forbidden) _
  | printPair first second => exact printPair_of_forbidden tracks first second forbidden
  | printInteger number | read extent => cases forbidden
  | free text =>
    cases text with
    | bytes bytes => rfl
    | null => cases forbidden
    | slot index =>
      exact tracks.misuse_of_unusable (.slot index) forbidden _ fun block gone =>
        bind_of_error (bind_of_error (load_of_gone machine block gone) _) _
  | poke text offset byte =>
    cases text with
    | bytes bytes => rfl
    | null => rfl
    | slot index => exact poke_of_forbidden tracks index offset byte forbidden
  | peek text =>
    exact tracks.misuse_of_unusable text forbidden _ fun block gone =>
      bind_of_error (bind_of_error (load_of_gone machine block gone) _) _

/-! ## Calls that return -/

theorem peek_of_stands (pointer : Pointer) (holding : Holding)
    (stands : Stands machine.heap pointer holding) (kept : holding ≠ .released) :
    peek pointer machine = .ok holding.text? machine := by
  cases stands with
  | null => rfl
  | constant text => rfl
  | live block text loaded =>
    refine (bind_of_ok (load_of_live machine block _ loaded) _).trans ?_
    rw [Text.ofMemory_terminated]
    rfl
  | released block inside gone => exact absurd rfl kept

/-- What a call that returns does, as far as a ledger and an output tell. -/
structure Returns (ledger : Ledger) (call : Call) (machine : Machine) (slots : Array Pointer)
    (after : Machine) : Prop where
  tracks : Tracks (ledger.after call) after slots
  output : after.output = (ledger.effect machine.output call).2
  log : after.log.toList = machine.log.toList ++ (ledger.effect machine.output call).1

/-- A call with texts to print finds them and prints them. -/
theorem perform_of_printing (tracks : Tracks ledger machine slots) (call : Call)
    (printing : Printing Text) (found : ledger.printing? call = some printing) :
    perform slots call machine = finish slots printing machine := by
  cases call with
  | print text | println text | printNumber text number =>
    simp only [perform_print, perform_println, perform_printNumber]
    obtain ⟨content, here, same⟩ :=
      Option.bind_eq_some_iff.mp (show (ledger.text? text).bind _ = some printing from found)
    cases same
    exact bind_of_ok (tracks.fetch_of_text _ text content here) _
  | printPair first second =>
    obtain ⟨one, here, rest⟩ :=
      Option.bind_eq_some_iff.mp (show (ledger.text? first).bind _ = some printing from found)
    obtain ⟨other, there, same⟩ := Option.bind_eq_some_iff.mp rest
    cases same
    rw [perform_printPair tracks first second (ledger.isSome_find?_of_text first one here)
      (ledger.isSome_find?_of_text second other there)]
    exact (bind_of_ok (tracks.fetch_of_text _ first one here) _).trans
      (bind_of_ok (tracks.fetch_of_text _ second other there) _)
  | printInteger number =>
    cases found
    rfl
  | textLength text | read extent | free text | poke text offset byte | peek text => cases found

/-- A call that prints leaves memory and the input alone. -/
theorem printed_returns (tracks : Tracks ledger machine slots) (call : Call)
    (printing : Printing Text) (found : ledger.printing? call = some printing) :
    Returns ledger call machine slots (machine.printed printing) where
  tracks := by
    rw [(ledger.frame_of_prints call (ledger.prints_of_printing call printing found)).1]
    exact tracks.of_same _ rfl rfl
  output := by
    simp only [Ledger.effect, found]
    rfl
  log := by simp [Ledger.effect, found, Machine.printed]

/-- A call that neither prints nor reads gives no notice. -/
theorem quiet_returns (call : Call) (after : Machine)
    (tracks : Tracks (ledger.after call) after slots) (prints : call.printing? = none)
    (notices : ledger.notices call = []) (output : after.output = machine.output)
    (log : after.log = machine.log) : Returns ledger call machine slots after where
  tracks := tracks
  output := by simpa [Ledger.effect, Ledger.printing?, prints] using output
  log := by simp [Ledger.effect, Ledger.printing?, prints, notices, log]

theorem read_returns (extent : Extent) (text : Option Text) (pointer : Pointer)
    (after : Machine) (given : (ledger.input.read extent).1.1 = text)
    (pushed : Tracks { input := after.input, holdings := ledger.holdings.push (.ofText text) }
      after (slots.push pointer))
    (input : after.input = (ledger.input.read extent).2) (output : after.output = machine.output)
    (log : after.log = machine.log ++ (ledger.input.read extent).1.2) :
    Returns ledger (.read extent) machine (slots.push pointer) after where
  tracks := by
    rw [input, ← given] at pushed
    exact pushed
  output := output
  log := by
    rw [log]
    simp [Ledger.effect, Ledger.printing?, Call.printing?, Ledger.notices]

/-- A read hands over what the ledger expects, in a block of its own. -/
theorem take_tracks (tracks : Tracks ledger machine slots) (extent : Extent) :
    ∃ pointer after, machine.take extent = (pointer, after) ∧
      Stands after.heap pointer (.ofText (ledger.input.read extent).1.1) ∧
      Returns ledger (.read extent) machine (slots.push pointer) after := by
  cases given : (ledger.input.read extent).1.1 with
  | none =>
    -- null needs no block, and memory is as it was
    have taken := machine.take_of_nothing _ extent tracks.input given
    have pushed := tracks.push .null .null { machine with
      input := (ledger.input.read extent).2
      log := machine.log ++ (ledger.input.read extent).1.2 } .null (Nat.le_refl _)
      (fun _ _ => rfl) (Or.inl rfl)
    exact ⟨_, _, taken, .null, read_returns extent none _ _ given pushed rfl rfl rfl⟩
  | some text =>
    have taken := machine.take_of_given _ extent text tracks.input given
    have stands : Stands (machine.heap.allocate text).2 (.block machine.heap.blocks.size)
      (.live text) := .live _ text (machine.heap.load?_allocate_self text)
    have pushed := tracks.push _ (.live text) { machine with
      input := (ledger.input.read extent).2
      heap := (machine.heap.allocate text).2
      log := machine.log ++ (ledger.input.read extent).1.2 } stands (by simp [Heap.allocate])
      (fun block below => machine.heap.load?_allocate_of_ne text block (Nat.ne_of_lt below))
      (Or.inr rfl)
    exact ⟨_, _, taken, stands, read_returns extent (some text) _ _ given pushed rfl rfl rfl⟩

theorem perform_free (tracks : Tracks ledger machine slots) (index : Nat)
    (permitted : ledger.permits (.free (.slot index)) = true) :
    ∃ after, perform slots (.free (.slot index)) machine = .ok (.done, slots) after ∧
      Returns ledger (.free (.slot index)) machine slots after := by
  obtain ⟨holding, found, kept⟩ := ledger.find?_of_isUsable (.slot index) permitted
  obtain ⟨pointer, slot, pointed, stands⟩ := tracks.point_of_slot index holding found
  rw [perform, pointed, pure_bind]
  cases stands with
  | null =>
    refine ⟨machine, rfl, quiet_returns _ machine ?_ rfl rfl rfl rfl⟩
    rw [Ledger.after, ledger.update_of_same index .null .release found rfl]
    exact tracks
  | constant text => exact absurd slot (tracks.handed index text)
  | live block text loaded =>
    refine ⟨_, bind_of_ok (free_of_live machine block _ loaded) _,
      quiet_returns _ _ ?_ rfl rfl rfl rfl⟩
    apply tracks.change index block _ _ slot (by simp [Heap.release])
      (machine.heap.load?_release_of_ne block)
    intro holding held
    cases held.symm.trans found
    have inside := machine.heap.lt_size_of_load? block _ loaded
    exact .released block (by simpa [Heap.release] using inside)
      (machine.heap.load?_release_self block)
  | released block inside gone => exact absurd rfl kept

theorem perform_poke (tracks : Tracks ledger machine slots) (index offset : Nat) (byte : UInt8)
    (permitted : ledger.permits (.poke (.slot index) offset byte) = true) :
    ∃ after, perform slots (.poke (.slot index) offset byte) machine = .ok (.done, slots) after ∧
      Returns ledger (.poke (.slot index) offset byte) machine slots after := by
  simp only [Ledger.permits, Bool.and_eq_true, Option.any_eq_true, decide_eq_true_eq,
    bne_iff_ne] at permitted
  obtain ⟨⟨text, here, inside⟩, nonzero⟩ := permitted
  obtain ⟨holding, found, live⟩ := Option.bind_eq_some_iff.mp here
  obtain ⟨pointer, slot, pointed, stands⟩ := tracks.point_of_slot index holding found
  rw [perform, pointed, pure_bind]
  cases stands with
  | null | released block inside gone => cases live
  | constant content => exact absurd slot (tracks.handed index content)
  | live block content loaded =>
    cases live
    -- the terminator stays where it was, so memory holds the text as rewritten
    have poked : Machine.poke (.block block) offset byte machine = .ok () { machine with
        heap := machine.heap.store block (text.terminated.set offset byte) } := by
      refine (bind_of_ok (load_of_live machine block _ loaded) _).trans ?_
      rw [Text.lengthBeforeZero_terminated, if_pos ⟨inside, nonzero⟩]
      rfl
    refine ⟨_, bind_of_ok poked _, quiet_returns _ _ ?_ rfl rfl rfl rfl⟩
    apply tracks.change index block _ _ slot (by simp [Heap.store])
      (fun other ne => machine.heap.load?_store_of_ne block other _ ne)
    intro holding held
    cases held.symm.trans found
    apply Stands.live
    rw [text.terminated_overwrite offset byte inside nonzero]
    exact machine.heap.load?_store_self block _ _ loaded

/-- A call that keeps the rules and is not fatal returns. -/
theorem perform_of_permitted (tracks : Tracks ledger machine slots) (call : Call)
    (permitted : ledger.permits call = true) (harmless : ledger.isFatal call = false) :
    ∃ after slots', perform slots call machine = .ok (ledger.result call, slots') after ∧
      Returns ledger call machine slots' after := by
  cases prints : call.printing?.isSome with
  | true =>
    obtain ⟨printing, found⟩ := ledger.printing?_of_permitted call prints permitted harmless
    refine ⟨machine.printed printing, slots, ?_, printed_returns tracks call printing found⟩
    rw [perform_of_printing tracks call printing found, (ledger.frame_of_prints call prints).2]
    exact bind_of_ok (emit_eq_printed machine printing) _
  | false =>
    cases call with
    | print text | println text | printNumber text number | printPair first second
    | printInteger number => cases prints
    | textLength text =>
      obtain ⟨content, found⟩ := ledger.text?_of_isUsable text permitted harmless
      refine ⟨machine, slots, ?_, quiet_returns _ machine tracks rfl rfl rfl rfl⟩
      rw [perform_textLength]
      refine (bind_of_ok (tracks.fetch_of_text _ text content found) _).trans ?_
      rw [Ledger.result, found]
      rfl
    | read extent =>
      obtain ⟨pointer, after, taken, stands, returns⟩ := take_tracks tracks extent
      have read : Machine.read extent machine = .ok pointer after := by
        change EStateM.Result.ok (machine.take extent).1 (machine.take extent).2 = _
        rw [taken]
      refine ⟨after, slots.push pointer, (bind_of_ok read _).trans ?_, returns⟩
      rw [Ledger.result]
      refine (bind_of_ok (peek_of_stands pointer _ stands ?_) _).trans ?_
      · cases (ledger.input.read extent).1.1 <;> rintro ⟨⟩
      · cases (ledger.input.read extent).1.1 <;> rfl
    | free text =>
      cases text with
      | bytes bytes => cases permitted
      | null => exact ⟨machine, slots, rfl, quiet_returns _ machine tracks rfl rfl rfl rfl⟩
      | slot index =>
        obtain ⟨after, returned, returns⟩ := perform_free tracks index permitted
        exact ⟨after, slots, returned, returns⟩
    | poke text offset byte =>
      cases text with
      | bytes bytes => cases permitted
      | null => cases permitted
      | slot index =>
        obtain ⟨after, returned, returns⟩ := perform_poke tracks index offset byte permitted
        exact ⟨after, slots, returned, returns⟩
    | peek text =>
      refine ⟨machine, slots, ?_, quiet_returns _ machine tracks rfl rfl rfl rfl⟩
      obtain ⟨holding, found, kept⟩ := ledger.find?_of_isUsable text permitted
      obtain ⟨pointer, pointed, stands⟩ := tracks.point_of_find text holding found
      rw [perform, pointed, pure_bind]
      refine (bind_of_ok (peek_of_stands pointer _ stands kept) _).trans ?_
      rw [Ledger.result, Ledger.text?, found]
      rfl

/-! ## Programs -/

/-- Every answer is the one that the ledger and the output tell. -/
theorem run_eq_replies (tracks : Tracks ledger machine slots) (calls : List Call) :
    run machine slots calls = ledger.replies machine.output calls := by
  induction calls generalizing ledger machine slots with
  | nil => rfl
  | cons call rest ih =>
    -- a call is made with an empty log
    have begun : Tracks ledger { machine with log := #[] } slots := tracks.of_same _ rfl rfl
    rw [run, Ledger.replies]
    cases permitted : ledger.permits call with
    | false =>
      simp only [perform_of_forbidden begun call permitted]
      simp [answer, Answer.ofMisuse, bytesSince]
    | true =>
      cases fatal : ledger.isFatal call with
      | true =>
        simp only [perform_of_fatal begun call permitted fatal]
        simp [answer, Answer.ofFatal, bytesSince, Machine.note]
      | false =>
        obtain ⟨after, slots', returned, returns⟩ := perform_of_permitted begun call permitted fatal
        simp only [returned]
        rw [ih returns.tracks]
        have output := returns.output
        have log := returns.log
        simp only [List.nil_append] at log
        simp [answer, Ledger.reply, output, log]

/-- The calls of a program that starts with these streams and holds nothing. -/
theorem run_eq_replies_of_start (input : Input) (output : Output) (calls : List Call) :
    run { input, output } #[] calls = ({ input } : Ledger).replies output calls :=
  run_eq_replies (tracks_empty input output) calls

/-- No call of a program breaks a rule on memory. -/
def KeepsRules (input : Input) (output : Output) (calls : List Call) : Prop :=
  ∀ answer ∈ run { input, output } #[] calls, answer.result ≠ .halted .misuse

instance (input : Input) (output : Output) (calls : List Call) :
    Decidable (KeepsRules input output calls) :=
  inferInstanceAs (Decidable (∀ answer ∈ run { input, output } #[] calls,
    answer.result ≠ .halted .misuse))

/-- The output has no part in whether the rules are kept. -/
theorem keepsRules_iff_lawful (input : Input) (output : Output) (calls : List Call) :
    KeepsRules input output calls ↔ ({ input } : Ledger).lawful calls = true := by
  rw [KeepsRules, run_eq_replies_of_start, Ledger.lawful_iff_of_replies]

end Script
end Console
