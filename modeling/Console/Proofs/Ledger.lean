import Console.Machine.Script
import Console.Proofs.Calls

/-!
# What a caller holds

A caller can know what its addresses lead to without a look into memory. It
keeps a ledger: what is left of the input, and for each slot what the read
returned, what was written over it since, and whether it was released.

The ledger tells which calls keep the rules on memory and which are fatal, and
with the output it tells every answer. There are no addresses and no blocks in
it, so whatever it says of one slot it says without regard to the others.
-/
namespace Console

/-- A text after one of its bytes has become another. -/
def Text.overwrite (text : Text) (offset : Nat) (byte : UInt8) : Text :=
  ofBytes (text.content.set offset byte)

theorem Text.content_overwrite (text : Text) (offset : Nat) (byte : UInt8) (nonzero : byte ≠ 0) :
    (text.overwrite offset byte).content = text.content.set offset byte := by
  apply content_ofBytes_of_zero_not_mem
  intro member
  rcases List.mem_or_eq_of_mem_set member with old | new
  · exact text.zero_not_mem old
  · exact nonzero new.symm

theorem Text.terminated_overwrite (text : Text) (offset : Nat) (byte : UInt8)
    (inside : offset < text.length) (nonzero : byte ≠ 0) :
    (text.overwrite offset byte).terminated = text.terminated.set offset byte := by
  rw [terminated, content_overwrite text offset byte nonzero, terminated,
    List.set_append_left _ _ inside]

namespace Script

/-- The name under which a call is known to its caller. -/
def Call.operation : Call → String
  | .print _ => "print"
  | .println _ => "println"
  | .printNumber _ _ => "printn"
  | .printPair _ _ => "prints"
  | .printInteger _ => "print_int"
  | .textLength _ => "textlen"
  | .read .line => "linein"
  | .read .character => "readchar"
  | .free _ => "text_free"
  | .poke _ _ _ => "poke"
  | .peek _ => "peek"

/-- The printing operation that a call is. A bare integer is a number after an
empty text. -/
def Call.printing? : Call → Option (Printing Operand)
  | .print text => some (.print text)
  | .println text => some (.println text)
  | .printNumber text number => some (.printNumber text number.toInt64)
  | .printPair first second => some (.printPair first second)
  | .printInteger number => some (.printNumber (.bytes []) number.toInt64)
  | .textLength _ | .read _ | .free _ | .poke _ _ _ | .peek _ => none

/-- What an address leads to, as far as its holder knows. -/
inductive Holding where
  | null
  | live (text : Text)
  | released
deriving DecidableEq

namespace Holding

/-- What a read hands over; at the end of input it is null. -/
def ofText : Option Text → Holding
  | none => .null
  | some text => .live text

def text? : Holding → Option Text
  | .live text => some text
  | .null | .released => none

def release : Holding → Holding
  | .live _ => .released
  | .null => .null
  | .released => .released

def overwrite (offset : Nat) (byte : UInt8) : Holding → Holding
  | .live text => .live (text.overwrite offset byte)
  | .null => .null
  | .released => .released

end Holding

/-- What a caller knows: the input to come, and what each slot holds. -/
structure Ledger where
  input : Input
  holdings : Array Holding := #[]

namespace Ledger

/-- What an operand leads to; a slot that no read has filled leads nowhere. -/
def find? (ledger : Ledger) : Operand → Option Holding
  | .bytes bytes => some (.live (Text.ofBytes bytes))
  | .slot index => ledger.holdings[index]?
  | .null => some .null

/-- The present content of the text that an operand leads to. -/
def text? (ledger : Ledger) (operand : Operand) : Option Text :=
  (ledger.find? operand).bind Holding.text?

def isNull (ledger : Ledger) (operand : Operand) : Bool := ledger.find? operand == some .null

/-- An address may be used if it is null or leads to a text. -/
def isUsable (ledger : Ledger) (operand : Operand) : Bool :=
  ledger.isNull operand || (ledger.text? operand).isSome

/-! ## Rules and their consequences -/

/-- The rules on memory: no use of a text after its release, no release of a text
that was not handed over, no change but of one byte inside a text to another that
is not zero. -/
def permits (ledger : Ledger) : Call → Bool
  | .print text | .println text | .printNumber text _ | .textLength text | .peek text =>
    ledger.isUsable text
  | .printPair first second =>
    -- a text is not looked at when there was a null before it
    ledger.isUsable first && (ledger.find? second).isSome &&
      (ledger.isNull first || ledger.isUsable second)
  | .printInteger _ | .read _ => true
  | .free (.bytes _) => false
  | .free text => ledger.isUsable text
  | .poke (.slot index) offset byte =>
    (ledger.text? (.slot index)).any (offset < ·.length) && byte != 0
  | .poke _ _ _ => false

/-- A call is fatal if null is passed where a text is needed. -/
def isFatal (ledger : Ledger) : Call → Bool
  | .print text | .println text | .printNumber text _ | .textLength text => ledger.isNull text
  | .printPair first second => ledger.isNull first || ledger.isNull second
  | .printInteger _ | .read _ | .free _ | .poke _ _ _ | .peek _ => false

/-- Changes what a slot holds. -/
def update (ledger : Ledger) (operand : Operand) (change : Holding → Holding) : Ledger :=
  match operand with
  | .slot index => { ledger with holdings := ledger.holdings.modify index change }
  | .bytes _ | .null => ledger

/-- The ledger after a call that returned. -/
def after (ledger : Ledger) : Call → Ledger
  | .read extent =>
    let ((text, _), input) := ledger.input.read extent
    { input, holdings := ledger.holdings.push (.ofText text) }
  | .free text => ledger.update text .release
  | .poke text offset byte => ledger.update text (.overwrite offset byte)
  | .print _ | .println _ | .printNumber _ _ | .printPair _ _ | .printInteger _ | .textLength _
  | .peek _ => ledger

/-- The ledger after calls that all returned. -/
def reached (ledger : Ledger) (calls : List Call) : Ledger := calls.foldl after ledger

/-- Calls that keep the rules on memory, as far as they are made: a fatal call is
the last. -/
def lawful (ledger : Ledger) : List Call → Bool
  | [] => true
  | call :: rest =>
    ledger.permits call && (ledger.isFatal call || (ledger.after call).lawful rest)

/-- Calls of which none is fatal. -/
def harmless (ledger : Ledger) : List Call → Bool
  | [] => true
  | call :: rest => !ledger.isFatal call && (ledger.after call).harmless rest

/-! ## Answers -/

/-- What a call returns. -/
def result (ledger : Ledger) : Call → Result
  | .textLength text => .length ((ledger.text? text).elim 0 Text.length)
  | .read extent => .text (ledger.input.read extent).1.1
  | .peek text => .text (ledger.text? text)
  | .print _ | .println _ | .printNumber _ _ | .printPair _ _ | .printInteger _ | .free _
  | .poke _ _ _ => .done

/-- The texts that a call prints, found in the ledger. -/
def printing? (ledger : Ledger) (call : Call) : Option (Printing Text) :=
  call.printing?.bind (·.mapM ledger.text?)

/-- The notices that a call gives unless it prints. -/
def notices (ledger : Ledger) : Call → List Notice
  | .read extent => (ledger.input.read extent).1.2
  | .print _ | .println _ | .printNumber _ _ | .printPair _ _ | .printInteger _ | .textLength _
  | .free _ | .poke _ _ _ | .peek _ => []

/-- All notices that a call gives, and the output that it leaves. -/
def effect (ledger : Ledger) (output : Output) (call : Call) : List Notice × Output :=
  match ledger.printing? call with
  | none => (ledger.notices call, output)
  | some printing =>
    let (fault, output) := output.print printing
    (fault.toList.map (.notPrinted printing.name), output)

/-- The answer to a call that returns. -/
def reply (ledger : Ledger) (output : Output) (call : Call) : Answer where
  out := bytesSince (ledger.effect output call).2.accepted output.accepted.size
  log := (ledger.effect output call).1
  result := ledger.result call

end Ledger

/-- The answer to a fatal call: nothing comes out, and one notice tells why. -/
def Answer.ofFatal (cause : Fatal) : Answer where
  out := []
  log := [.fatal cause]
  result := .halted (.fatal cause)

/-- The answer to a call that breaks the rules on memory. -/
def Answer.ofMisuse : Answer where
  out := []
  log := []
  result := .halted .misuse

/-- The answers to calls, told from a ledger and an output alone. -/
def Ledger.replies (ledger : Ledger) (output : Output) : List Call → List Answer
  | [] => []
  | call :: rest =>
    if ledger.permits call then
      if ledger.isFatal call then [.ofFatal (.nullText call.operation)]
      else
        ledger.reply output call :: (ledger.after call).replies (ledger.effect output call).2 rest
    else [.ofMisuse]

namespace Ledger

/-! ## One call -/

/-- An address that may be used and is not null leads to a text. -/
theorem text?_of_isUsable (ledger : Ledger) (operand : Operand)
    (usable : ledger.isUsable operand = true) (given : ledger.isNull operand = false) :
    ∃ text, ledger.text? operand = some text := by
  rw [isUsable, given, Bool.false_or] at usable
  exact Option.isSome_iff_exists.mp usable

theorem isSome_find?_of_text (ledger : Ledger) (operand : Operand) (text : Text)
    (found : ledger.text? operand = some text) : (ledger.find? operand).isSome = true := by
  obtain ⟨holding, here, -⟩ := Option.bind_eq_some_iff.mp found
  rw [here]
  rfl

theorem find?_of_isUsable (ledger : Ledger) (operand : Operand)
    (usable : ledger.isUsable operand = true) :
    ∃ holding, ledger.find? operand = some holding ∧ holding ≠ .released := by
  cases found : ledger.find? operand with
  | none => simp [isUsable, isNull, text?, found] at usable
  | some holding =>
    refine ⟨holding, rfl, ?_⟩
    rintro rfl
    simp [isUsable, isNull, text?, Holding.text?, found] at usable

/-- A call that prints finds all its texts, if it keeps the rules and is not fatal. -/
theorem printing?_of_permitted (ledger : Ledger) (call : Call)
    (prints : call.printing?.isSome = true) (permitted : ledger.permits call = true)
    (harmless : ledger.isFatal call = false) :
    ∃ printing, ledger.printing? call = some printing := by
  cases call with
  | print text | println text | printNumber text number =>
    obtain ⟨content, found⟩ := ledger.text?_of_isUsable text permitted harmless
    simp [printing?, Call.printing?, Printing.mapM, found]
  | printPair first second =>
    simp only [permits, isFatal, Bool.and_eq_true, Bool.or_eq_false_iff] at permitted harmless
    obtain ⟨one, here⟩ := ledger.text?_of_isUsable first permitted.1.1 harmless.1
    -- the first is not null, so the rules are about the second as well
    obtain ⟨other, there⟩ := ledger.text?_of_isUsable second
      (by simpa [harmless.1] using permitted.2) harmless.2
    simp [printing?, Call.printing?, Printing.mapM, here, there]
  | printInteger number => exact ⟨_, rfl⟩
  | textLength text | read extent | free text | poke text offset byte | peek text => nomatch prints

/-- A text may be used, and is not null. -/
theorem usable_of_text (ledger : Ledger) (operand : Operand) (text : Text)
    (found : ledger.text? operand = some text) :
    ledger.isUsable operand = true ∧ ledger.isNull operand = false := by
  obtain ⟨holding, held, live⟩ := Option.bind_eq_some_iff.mp found
  cases holding with
  | live content => simp [isUsable, isNull, found, held]
  | null | released => nomatch live

/-- A call that finds all the texts it prints keeps the rules and is not fatal. -/
theorem permitted_of_printing (ledger : Ledger) (call : Call) (printing : Printing Text)
    (found : ledger.printing? call = some printing) :
    ledger.permits call = true ∧ ledger.isFatal call = false := by
  obtain ⟨operation, known, found⟩ := Option.bind_eq_some_iff.mp found
  cases call with
  | print text | println text | printNumber text number =>
    cases known
    obtain ⟨content, here, -⟩ := Option.bind_eq_some_iff.mp found
    exact ledger.usable_of_text text content here
  | printPair first second =>
    cases known
    obtain ⟨one, here, rest⟩ := Option.bind_eq_some_iff.mp found
    obtain ⟨other, there, -⟩ := Option.bind_eq_some_iff.mp rest
    simp [permits, isFatal, ledger.usable_of_text first one here,
      ledger.usable_of_text second other there, ledger.isSome_find?_of_text second other there]
  | printInteger number => exact ⟨rfl, rfl⟩
  | textLength text | read extent | free text | poke text offset byte | peek text => nomatch known

theorem prints_of_printing (ledger : Ledger) (call : Call) (printing : Printing Text)
    (found : ledger.printing? call = some printing) : call.printing?.isSome = true := by
  obtain ⟨operation, known, -⟩ := Option.bind_eq_some_iff.mp found
  rw [known]
  rfl

/-- Printing changes nothing that a caller holds, and returns nothing. -/
theorem frame_of_prints (ledger : Ledger) (call : Call) (prints : call.printing?.isSome = true) :
    ledger.after call = ledger ∧ ledger.result call = .done := by
  cases call with
  | print text | println text | printNumber text number | printPair first second
  | printInteger number => exact ⟨rfl, rfl⟩
  | textLength text | read extent | free text | poke text offset byte | peek text => nomatch prints

/-- No call that returns tells of a halt. -/
theorem result_ne_halted (ledger : Ledger) (call : Call) (halt : Halt) :
    ledger.result call ≠ .halted halt := by
  cases call <;> nofun

/-- A call that neither prints nor reads shows nothing but its result. -/
theorem reply_of_quiet (ledger : Ledger) (output : Output) (call : Call)
    (quiet : call.printing? = none) (silent : ledger.notices call = []) :
    ledger.reply output call = { out := [], log := [], result := ledger.result call } := by
  simp [reply, effect, printing?, quiet, silent, bytesSince]

theorem reply_of_read (ledger : Ledger) (output : Output) (extent : Extent) :
    ledger.reply output (.read extent) = {
      out := []
      log := (ledger.input.read extent).1.2
      result := .text (ledger.input.read extent).1.1 } := by
  simp [reply, effect, printing?, Call.printing?, notices, result, bytesSince]

theorem input_update (ledger : Ledger) (operand : Operand) (change : Holding → Holding) :
    (ledger.update operand change).input = ledger.input := by
  cases operand <;> rfl

theorem update_of_same (ledger : Ledger) (index : Nat) (holding : Holding)
    (alter : Holding → Holding) (found : ledger.holdings[index]? = some holding)
    (same : alter holding = holding) : ledger.update (.slot index) alter = ledger := by
  have unchanged : ledger.holdings.modify index alter = ledger.holdings := by
    apply Array.ext_getElem?
    intro other
    rw [Array.getElem?_modify]
    split
    next here => rw [← here, found, Option.map_some, same]
    next => rfl
  rw [update, unchanged]

/-! ## Calls one after the other -/

/-- The output after calls that all returned. -/
def outputAfter (ledger : Ledger) (output : Output) : List Call → Output
  | [] => output
  | call :: rest => (ledger.after call).outputAfter (ledger.effect output call).2 rest

theorem replies_of_returns (ledger : Ledger) (output : Output) (call : Call) (rest : List Call)
    (permitted : ledger.permits call = true) (harmless : ledger.isFatal call = false) :
    ledger.replies output (call :: rest) = ledger.reply output call ::
      (ledger.after call).replies (ledger.effect output call).2 rest := by
  simp [replies, permitted, harmless]

theorem replies_of_fatal (ledger : Ledger) (output : Output) (call : Call) (rest : List Call)
    (permitted : ledger.permits call = true) (fatal : ledger.isFatal call = true) :
    ledger.replies output (call :: rest) = [.ofFatal (.nullText call.operation)] := by
  simp [replies, permitted, fatal]

/-- Of calls that are lawful and harmless, the first returns and the others are lawful
and harmless after it. -/
theorem returns_of_cons (ledger : Ledger) (call : Call) (rest : List Call)
    (lawful : ledger.lawful (call :: rest) = true)
    (harmless : ledger.harmless (call :: rest) = true) :
    (ledger.permits call = true ∧ ledger.isFatal call = false) ∧
      (ledger.after call).lawful rest = true ∧ (ledger.after call).harmless rest = true := by
  simp only [Ledger.harmless, Bool.and_eq_true, Bool.not_eq_true'] at harmless
  simp only [Ledger.lawful, harmless.1, Bool.false_or, Bool.and_eq_true] at lawful
  exact ⟨⟨lawful.1, harmless.1⟩, lawful.2, harmless.2⟩

/-- A misuse is answered exactly when a rule on memory is broken. -/
theorem lawful_iff_of_replies (ledger : Ledger) (output : Output) (calls : List Call) :
    ledger.lawful calls = true ↔
      ∀ answer ∈ ledger.replies output calls, answer.result ≠ .halted .misuse := by
  induction calls generalizing ledger output with
  | nil => simp [lawful, replies]
  | cons call rest ih =>
    cases permitted : ledger.permits call with
    | false => simp [lawful, replies, permitted, Answer.ofMisuse]
    | true =>
      cases fatal : ledger.isFatal call with
      | true => simp [lawful, replies, permitted, fatal, Answer.ofFatal]
      | false =>
        rw [ledger.replies_of_returns output call rest permitted fatal, List.forall_mem_cons,
          ← ih, lawful, permitted, fatal]
        exact (and_iff_right (ledger.result_ne_halted call .misuse)).symm

theorem lawful_append (ledger : Ledger) (before rest : List Call)
    (harmless : ledger.harmless before = true) :
    ledger.lawful (before ++ rest) =
      (ledger.lawful before && (ledger.reached before).lawful rest) := by
  induction before generalizing ledger with
  | nil => simp [lawful, reached]
  | cons call before ih =>
    simp only [Ledger.harmless, Bool.and_eq_true, Bool.not_eq_true'] at harmless
    simp only [List.cons_append, lawful, harmless.1, Bool.false_or, ih _ harmless.2, Bool.and_assoc]
    rfl

theorem harmless_append (ledger : Ledger) (before rest : List Call) :
    ledger.harmless (before ++ rest) =
      (ledger.harmless before && (ledger.reached before).harmless rest) := by
  induction before generalizing ledger with
  | nil => simp [harmless, reached]
  | cons call before ih =>
    simp only [List.cons_append, harmless, ih, Bool.and_assoc]
    rfl

/-- Of calls that are lawful and harmless, each one returns, and so do all before it. -/
theorem returns_of_append (ledger : Ledger) (before after : List Call) (call : Call)
    (lawful : ledger.lawful (before ++ call :: after) = true)
    (harmless : ledger.harmless (before ++ call :: after) = true) :
    (ledger.lawful before = true ∧ ledger.harmless before = true) ∧
      (ledger.reached before).permits call = true ∧ (ledger.reached before).isFatal call = false := by
  rw [ledger.harmless_append, Bool.and_eq_true] at harmless
  rw [ledger.lawful_append before _ harmless.1, Bool.and_eq_true] at lawful
  exact ⟨⟨lawful.1, harmless.1⟩, (returns_of_cons _ call after lawful.2 harmless.2).1⟩

/-- The answers to more calls are more answers. -/
theorem replies_append (ledger : Ledger) (output : Output) (before rest : List Call)
    (lawful : ledger.lawful before = true) (harmless : ledger.harmless before = true) :
    ledger.replies output (before ++ rest) = ledger.replies output before ++
      (ledger.reached before).replies (ledger.outputAfter output before) rest := by
  induction before generalizing ledger output with
  | nil => rfl
  | cons call before ih =>
    obtain ⟨⟨permitted, returns⟩, lawful, harmless⟩ :=
      ledger.returns_of_cons call before lawful harmless
    rw [List.cons_append, ledger.replies_of_returns output call _ permitted returns,
      ledger.replies_of_returns output call _ permitted returns, ih _ _ lawful harmless]
    rfl

theorem length_replies (ledger : Ledger) (output : Output) (calls : List Call)
    (lawful : ledger.lawful calls = true) (harmless : ledger.harmless calls = true) :
    (ledger.replies output calls).length = calls.length := by
  induction calls generalizing ledger output with
  | nil => rfl
  | cons call rest ih =>
    obtain ⟨⟨permitted, returns⟩, lawful, harmless⟩ :=
      ledger.returns_of_cons call rest lawful harmless
    rw [ledger.replies_of_returns output call rest permitted returns, List.length_cons,
      ih _ _ lawful harmless, List.length_cons]

/-- Of a call that is answered, all calls before have returned. -/
theorem returned_of_answered (ledger : Ledger) (output : Output) (before rest : List Call)
    (answered : before.length < (ledger.replies output (before ++ rest)).length) :
    ledger.lawful before = true ∧ ledger.harmless before = true := by
  induction before generalizing ledger output with
  | nil => exact ⟨rfl, rfl⟩
  | cons call before ih =>
    rw [List.cons_append, replies] at answered
    cases permitted : ledger.permits call with
    | false => simp [permitted] at answered
    | true =>
      cases fatal : ledger.isFatal call with
      | true => simp [permitted, fatal] at answered
      | false =>
        simp only [permitted, fatal, if_true, Bool.false_eq_true, if_false, List.length_cons,
          Nat.add_lt_add_iff_right] at answered
        obtain ⟨lawful, harmless⟩ := ih _ _ answered
        simp [Ledger.lawful, Ledger.harmless, permitted, fatal, lawful, harmless]

/-- The answer to a call is told by what was reached before it. -/
theorem getElem?_replies (ledger : Ledger) (output : Output) (before after : List Call)
    (call : Call) (lawful : ledger.lawful before = true) (harmless : ledger.harmless before = true)
    (permitted : (ledger.reached before).permits call = true)
    (returns : (ledger.reached before).isFatal call = false) :
    (ledger.replies output (before ++ call :: after))[before.length]? =
      some ((ledger.reached before).reply (ledger.outputAfter output before) call) := by
  have count := ledger.length_replies output before lawful harmless
  rw [ledger.replies_append output before _ lawful harmless,
    List.getElem?_append_right (Nat.le_of_eq count), count, Nat.sub_self,
    replies_of_returns _ _ call after permitted returns, List.getElem?_cons_zero]

/-! ## A working output -/

/-- An output that works goes on working. -/
theorem ready_effect (ledger : Ledger) (output : Output) (call : Call) (ready : output.Ready) :
    (ledger.effect output call).2.Ready := by
  rw [effect]
  cases ledger.printing? call with
  | none => exact ready
  | some printing =>
    simp only [output.print_of_working printing ready.working ready.free]
    exact output.ready_accept printing.rendering ready

theorem ready_outputAfter (ledger : Ledger) (output : Output) (calls : List Call)
    (ready : output.Ready) : (ledger.outputAfter output calls).Ready := by
  induction calls generalizing ledger output with
  | nil => exact ready
  | cons call rest ih => exact ih _ _ (ledger.ready_effect output call ready)

/-- On an output that works, a call that prints is answered with what it has to print. -/
theorem reply_of_printing (ledger : Ledger) (output : Output) (call : Call)
    (printing : Printing Text) (ready : output.Ready)
    (found : ledger.printing? call = some printing) :
    ledger.reply output call = { out := printing.rendering, log := [], result := .done } := by
  simp only [reply, effect, found, output.print_of_working printing ready.working ready.free,
    (ledger.frame_of_prints call (ledger.prints_of_printing call printing found)).2]
  rw [bytesSince_of_append output.accepted _ printing.rendering (by simp)]
  rfl

end Ledger
end Script
end Console
