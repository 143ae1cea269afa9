import Console.Proofs.Calls
import Console.Proofs.Splitting
import Console.Tool.Command
import Mathlib.Algebra.Group.Nat.Defs

/-!
# What echoing prints

The tool reads until there is nothing left, and prints as it reads. What it
prints in all is told by the input alone, in whatever pieces that is delivered: by
its lines as a plain split gives them, or by its bytes. The tool ends well and
leaves every file alone. Counts are right as long as they fit in 32 bits.
-/
namespace Console

/-- The texts that a source gives when it is read until it gives none. -/
inductive Source.Yields (extent : Extent) : Source → List Text → Prop
  | done {source : Source} (nothing : (source.read extent).text = none) : Yields extent source []
  | next {source : Source} {text : Text} {texts : List Text}
      (given : (source.read extent).text = some text)
      (later : Yields extent (source.read extent).source texts) :
      Yields extent source (text :: texts)

namespace Source

/-- Every source comes to an end. -/
theorem exists_yields (extent : Extent) (source : Source) :
    ∃ texts, source.Yields extent texts := by
  generalize size : source.unread.length = bound
  induction bound using Nat.strong_induction_on generalizing source with
  | _ bound ih =>
    cases given : (source.read extent).text with
    | none => exact ⟨[], .done given⟩
    | some text =>
      have less := unread_read_lt source extent text given
      obtain ⟨texts, later⟩ := ih _ (size ▸ less) _ rfl
      exact ⟨text :: texts, .next given later⟩

/-- There are no more texts than bytes. -/
theorem Yields.length_le {extent : Extent} {source : Source} {texts : List Text}
    (yields : source.Yields extent texts) : texts.length ≤ source.unread.length := by
  induction yields with
  | done _ => exact Nat.zero_le _
  | @next source text _ given _ ih =>
    have less := unread_read_lt source extent text given
    rw [List.length_cons]
    omega

theorem yields_lines (source : Source) : source.Yields .line source.lines.1 := by
  fun_induction lines source with
  | case1 source reading nothing => exact .done nothing
  | case2 source reading text given texts after rest ih =>
    rw [rest] at ih
    exact .next given ih

private theorem read_character_of_steady (source : Source) (steady : source.Steady) :
    match source.unread with
    | [] => (source.read .character).text = none
    | byte :: rest => (source.read .character).text = some (Text.ofBytes [byte]) ∧
        (source.read .character).source.unread = rest := by
  have text := text_read source .character
  have left := congrArg Signal.bytes (signals_read source .character)
  rw [bytes_signals] at left
  simp only [Passage.read] at text left
  rcases Passage.character_cases source.signals with
    ⟨finished, passed⟩ | ⟨fault, later, signals, passed⟩ | ⟨byte, later, signals, passed⟩
  · have empty : source.unread = [] := by rw [← bytes_signals, finished, Signal.bytes_nil]
    rw [empty, text, passed]
  · -- steady input has no stop to be met
    refine absurd ?_ (steady fault)
    rw [signals]
    exact List.mem_cons_self
  · have unread : source.unread = byte :: Signal.bytes later := by
      rw [← bytes_signals, signals, Signal.bytes_byte]
    rw [unread, text, left, passed]
    exact ⟨rfl, rfl⟩

theorem yields_characters (source : Source) (steady : source.Steady) :
    source.Yields .character (source.unread.map fun byte => Text.ofBytes [byte]) := by
  generalize left : source.unread = bytes
  induction bytes generalizing source with
  | nil =>
    have next := read_character_of_steady source steady
    rw [left] at next
    exact .done next
  | cons byte rest ih =>
    have next := read_character_of_steady source steady
    rw [left] at next
    exact .next next.1 (ih _ (steady_read source steady .character) next.2)

end Source

/-- What the texts in an input hold: a line what a plain split gives, a character its
byte, or nothing if that is zero. -/
def Extent.contents : Extent → Bytes → List Bytes
  | .line, input => Lines.split input
  | .character, input => input.map fun byte => if byte = 0 then [] else [byte]

/-- However an input is delivered, its texts are read one after the other. -/
theorem Source.Delivers.exists_yields {source : Source} {input : Bytes}
    (delivers : source.Delivers input) (extent : Extent) :
    ∃ texts, source.Yields extent texts ∧ texts.map Text.content = extent.contents input := by
  cases extent with
  | line =>
    refine ⟨_, source.yields_lines, ?_⟩
    rw [(source.lines_of_steady delivers.isSteady).1, delivers.unread_eq]
    rfl
  | character =>
    refine ⟨_, source.yields_characters delivers.isSteady, ?_⟩
    rw [delivers.unread_eq, List.map_map]
    apply List.map_congr_left
    intro byte _
    by_cases zero : byte = 0
    · simp [zero]
    · simp [zero]

namespace Tool

open Machine

/-! ## One text -/

/-- What is printed of a line. -/
def lineEcho (line : Bytes) : Bytes :=
  utf8 "> " ++ line ++ [lineFeed] ++
    (utf8 "length: " ++ Decimal.render (min line.length (2 ^ 31 - 1) : Nat) ++ [lineFeed])

/-- What is printed of a character; that of a zero byte is empty. -/
def characterEcho (character : Bytes) : Bytes := utf8 "char: " ++ character ++ [lineFeed]

def echoOf : Extent → Text → Bytes
  | .line, text => lineEcho text.content
  | .character, text => characterEcho text.content

/-- What is printed in the end. -/
def totalEcho (label : String) (count : Nat) : Bytes :=
  utf8 label ++ Decimal.render count ++ [lineFeed]

/-- The same for a count of 32 bits. -/
def countEcho (label : String) (count : Int32) : Bytes :=
  utf8 label ++ Decimal.render count.toInt ++ [lineFeed]

theorem countEcho_of_le (label : String) (count : Nat) (few : count ≤ 2 ^ 31 - 1) :
    countEcho label (Int32.ofNat count) = totalEcho label count := by
  rw [countEcho, Int32.toInt_ofNat_of_lt (by omega), totalEcho]

private theorem toInt_clamp (length : Nat) :
    (clamp length).toInt64.toInt = (min length (2 ^ 31 - 1) : Nat) := by
  rw [Int32.toInt_toInt64, clamp, Int32.toInt_maxValue]
  split
  next fits =>
    rw [Int32.toInt_ofNat_of_lt (by omega)]
    omega
  next exceeds =>
    rw [Int32.toInt_maxValue]
    omega

/-- Phrases have no zero in them, so they are printed as they are. -/
private theorem content_phrase (string : String) (clean : 0 ∉ utf8 string) :
    (Text.ofString string).content = utf8 string :=
  Text.content_ofBytes_of_zero_not_mem _ clean

theorem print_labelled_pair (machine : Machine) (label : String) (clean : 0 ∉ utf8 label)
    (pointer : Pointer) (text : Text) (ready : machine.output.Ready)
    (found : machine.text? pointer = some text) :
    print (.printPair (phrase label) pointer) machine =
      .ok () (machine.emitted (utf8 label ++ text.content ++ [lineFeed])) := by
  have texts : Printing.mapM machine.text? (.printPair (phrase label) pointer) =
      some (.printPair (Text.ofString label) text) := by
    have labelled : machine.text? (phrase label) = some (Text.ofString label) := rfl
    simp [Printing.mapM, labelled, found]
  have printed := print_of_text machine _ _ ready texts
  rw [printed]
  simp [content_phrase label clean]

theorem print_labelled_number (machine : Machine) (label : String) (clean : 0 ∉ utf8 label)
    (number : Int64) (ready : machine.output.Ready) :
    print (.printNumber (phrase label) number) machine =
      .ok () (machine.emitted (utf8 label ++ Decimal.render number.toInt ++ [lineFeed])) := by
  have printed := print_of_text machine (.printNumber (phrase label) number) _ ready rfl
  rw [printed]
  simp [content_phrase label clean]

theorem present_of_text (extent : Extent) (machine : Machine) (pointer : Pointer) (text : Text)
    (ready : machine.output.Ready) (found : machine.text? pointer = some text) :
    present extent pointer machine = .ok () (machine.emitted (echoOf extent text)) := by
  cases extent with
  | character => exact print_labelled_pair machine "char: " (by decide) pointer text ready found
  | line =>
    have shown := print_labelled_pair machine "> " (by decide) pointer text ready found
    have measured := textLength_of_text (machine.emitted (utf8 "> " ++ text.content ++ [lineFeed]))
      pointer text (by rw [text?_emitted]; exact found)
    have counted := print_labelled_number
      (machine.emitted (utf8 "> " ++ text.content ++ [lineFeed])) "length: " (by decide)
      (clamp text.length).toInt64 (Output.ready_accept _ _ ready)
    rw [emitted_emitted, toInt_clamp] at counted
    exact (bind_of_ok shown _).trans ((bind_of_ok measured _).trans counted)

/-- A text in a block is printed, and its block is released. -/
theorem echoOne_of_live (extent : Extent) (machine : Machine) (index : Nat) (text : Text)
    (ready : machine.output.Ready) (live : machine.heap.load? index = some text.terminated) :
    echoOne extent (.block index) machine =
      .ok () { machine.emitted (echoOf extent text) with heap := machine.heap.release index } := by
  have found : machine.text? (.block index) = some text := by
    rw [text?, live, Option.map_some, Text.ofMemory_terminated]
  have presented := present_of_text extent machine (.block index) text ready found
  have released := free_of_live (machine.emitted (echoOf extent text)) index text.terminated live
  exact (bind_of_ok presented _).trans released

/-! ## All texts -/

private theorem drain_of_null (extent : Extent) (count : Int32) (machine after : Machine)
    (taken : machine.take extent = (.null, after)) :
    drain extent count machine = .ok count after := by
  rw [drain]
  simp [taken]

private theorem drain_of_echoed (extent : Extent) (count : Int32) (machine held after : Machine)
    (pointer : Pointer) (taken : machine.take extent = (pointer, held)) (given : pointer ≠ .null)
    (echoed : echoOne extent pointer held = .ok () after) :
    drain extent count machine = drain extent (count + 1) after := by
  have returned :
      echoOne extent (machine.take extent).1 (machine.take extent).2 = .ok () after := by
    rw [taken]
    exact echoed
  rw [drain, dif_neg (by rw [taken]; exact given)]
  split
  next halt other failed => simp [returned] at failed
  next other same =>
    rw [returned] at same
    cases same
    rfl

/-- At the end of input draining is over. -/
theorem drain_of_none (extent : Extent) (source : Source) (count : Int32) (machine : Machine)
    (input : machine.input = .working source) (nothing : (source.read extent).text = none) :
    ∃ after, drain extent count machine = .ok count after ∧ after.output = machine.output := by
  have taken := take_of_none machine source extent input nothing
  exact ⟨_, drain_of_null extent count machine _ taken, rfl⟩

/-- A text that is read is echoed from the block it was put in, and draining
goes on with the source that the read left. -/
theorem drain_of_some (extent : Extent) (source : Source) (text : Text) (count : Int32)
    (machine : Machine) (input : machine.input = .working source) (ready : machine.output.Ready)
    (given : (source.read extent).text = some text) :
    ∃ after, drain extent count machine = drain extent (count + 1) after ∧
      after.input = .working (source.read extent).source ∧
      after.output = machine.output.accept (echoOf extent text) := by
  have taken := take_of_some machine source extent text input given
  have live := machine.heap.load?_allocate_self text
  have echoed := echoOne_of_live extent { machine with
    input := .working (source.read extent).source
    heap := (machine.heap.allocate text).2
    log := machine.log ++ (source.read extent).log } machine.heap.blocks.size text ready live
  exact ⟨_, drain_of_echoed extent count machine _ _ _ taken nofun echoed, rfl, rfl⟩

/-- Draining echoes every text that the source yields, and counts in 32 bits. -/
theorem drain_of_yields (extent : Extent) (source : Source) (texts : List Text)
    (yields : source.Yields extent texts) (count : Int32) (machine : Machine)
    (input : machine.input = .working source) (ready : machine.output.Ready) :
    ∃ after, drain extent count machine = .ok (count + Int32.ofNat texts.length) after ∧
      after.output = machine.output.accept (texts.flatMap (echoOf extent)) := by
  -- the count goes up and the heap fills, so both are any in the induction
  induction yields generalizing count machine with
  | @done source nothing =>
    obtain ⟨after, drained, output⟩ := drain_of_none extent source count machine input nothing
    refine ⟨after, ?_, ?_⟩
    · rw [drained]
      simp
    · rw [output]
      exact (Output.accept_nil _).symm
  | @next source text texts given later ih =>
    obtain ⟨middle, begun, left, shown⟩ :=
      drain_of_some extent source text count machine input ready given
    obtain ⟨after, drained, output⟩ :=
      ih (count + 1) middle left (by rw [shown]; exact Output.ready_accept _ _ ready)
    refine ⟨after, ?_, ?_⟩
    · -- one more text is one more count, also where the count wraps
      have total :
          count + 1 + Int32.ofNat texts.length = count + Int32.ofNat (texts.length + 1) := by
        rw [Int32.ofNat_add, Int32.add_comm (Int32.ofNat texts.length), ← Int32.add_assoc]
        rfl
      rw [begun, drained, total]
      rfl
    · rw [output, shown, Output.accept_accept]
      rfl

/-- Echoing prints all that a source yields, and then the count. -/
theorem echo_of_yields (extent : Extent) (source : Source) (texts : List Text)
    (yields : source.Yields extent texts) (machine : Machine)
    (input : machine.input = .working source) (ready : machine.output.Ready) :
    ∃ after, echo extent machine = .ok () after ∧
      after.output = machine.output.accept
        (texts.flatMap (echoOf extent) ++
          countEcho (totalLabel extent) (Int32.ofNat texts.length)) := by
  obtain ⟨middle, drained, output⟩ :=
    drain_of_yields extent source texts yields 0 machine input ready
  have clean : 0 ∉ utf8 (totalLabel extent) := by cases extent <;> decide
  have counted := print_labelled_number middle (totalLabel extent) clean
    (0 + Int32.ofNat texts.length).toInt64 (by rw [output]; exact Output.ready_accept _ _ ready)
  rw [Int32.zero_add, Int32.toInt_toInt64] at counted
  rw [Int32.zero_add] at drained
  refine ⟨_, (bind_of_ok drained _).trans counted, ?_⟩
  rw [emitted, output, Output.accept_accept]
  rfl

theorem execute_echo_of_yields (extent : Extent) (texts : List Text) (stdin : Source)
    (tree : Tree) (yields : stdin.Yields extent texts) :
    execute (echo extent) stdin tree = {
      ending := .exit 0
      stdout := texts.flatMap (echoOf extent) ++
        countEcho (totalLabel extent) (Int32.ofNat texts.length)
      stderr := ""
      tree } := by
  obtain ⟨after, echoed, output⟩ := echo_of_yields extent stdin texts yields
    (Machine.ofInput stdin) rfl ⟨rfl, rfl⟩
  simp only [execute, echoed, output]
  simp [Output.accept, Machine.ofInput]

/-- A count that fits is printed as it is. -/
theorem execute_echo (extent : Extent) (texts : List Text) (stdin : Source) (tree : Tree)
    (yields : stdin.Yields extent texts) (few : texts.length ≤ 2 ^ 31 - 1) :
    execute (echo extent) stdin tree = {
      ending := .exit 0
      stdout := texts.flatMap (echoOf extent) ++ totalEcho (totalLabel extent) texts.length
      stderr := ""
      tree } := by
  rw [execute_echo_of_yields extent texts stdin tree yields, countEcho_of_le _ _ few]

/-- Run on any input, in whatever pieces it is delivered, the tool ends well, says
nothing on the side, changes no file, and prints each line of a plain split of the
input, or each byte, with a count in the end, provided that the count fits in 32 bits. -/
theorem echo_outcome (input : Bytes) (stdin : Source) (delivers : stdin.Delivers input)
    (tree : Tree) (more : List String) :
    ((Lines.split input).length ≤ 2 ^ 31 - 1 →
      run ("lines" :: more) stdin tree = {
        ending := .exit 0
        stdout := (Lines.split input).flatMap lineEcho ++
          totalEcho "lines: " (Lines.split input).length
        stderr := ""
        tree }) ∧
    (input.length ≤ 2 ^ 31 - 1 →
      run ("chars" :: more) stdin tree = {
        ending := .exit 0
        stdout := (input.flatMap fun byte => characterEcho (if byte = 0 then [] else [byte])) ++
          totalEcho "chars: " input.length
        stderr := ""
        tree }) := by
  constructor
  · intro few
    obtain ⟨lines, yields, contents⟩ := delivers.exists_yields .line
    have split : lines.map Text.content = Lines.split input := contents
    rw [← split, List.length_map] at few
    rw [← split, List.length_map, List.flatMap_map]
    exact execute_echo .line lines stdin tree yields few
  · intro few
    obtain ⟨characters, yields, contents⟩ := delivers.exists_yields .character
    have count : characters.length = input.length := by
      simpa [Extent.contents] using congrArg List.length contents
    -- the character of a zero byte is an empty text, so nothing is echoed of it
    have echoes := congrArg (List.flatMap characterEcho) contents
    rw [Extent.contents, List.flatMap_map, List.flatMap_map] at echoes
    rw [← echoes, ← count]
    exact execute_echo .character characters stdin tree yields (count ▸ few)

/-- A line with a zero inside, a blank line, and a last line that begins with a zero. -/
def zeroLines : Bytes := [97, 0, 98, 13, 10, 10, 0]

/-- The same in pieces, with a line and the end of a line torn apart. -/
def zeroLinesInPieces : Source where
  window := some ⟨2, Nat.two_pos⟩
  pending := [.data [97], .data [0, 98, 13], .failure ⟨.interrupted, "again"⟩, .data [10, 10, 0]]

theorem echo_outcome_of_zeroLines :
    zeroLinesInPieces.Delivers zeroLines ∧
      (Lines.split zeroLines).length ≤ 2 ^ 31 - 1 ∧ zeroLines.length ≤ 2 ^ 31 - 1 ∧
      run ["lines"] zeroLinesInPieces {} = {
        ending := .exit 0
        stdout := utf8 "> a\nlength: 1\n> \nlength: 0\n> \nlength: 0\nlines: 3\n"
        stderr := ""
        tree := {} } ∧
      run ["chars"] zeroLinesInPieces {} = {
        ending := .exit 0
        stdout := utf8 ("char: a\nchar: \nchar: b\nchar: \r\nchar: \n\nchar: \n\nchar: \n" ++
          "chars: 7\n")
        stderr := ""
        tree := {} } := by
  have delivers : zeroLinesInPieces.Delivers zeroLines := ⟨by decide, by decide⟩
  have few : (Lines.split zeroLines).length ≤ 2 ^ 31 - 1 := by decide +kernel
  refine ⟨delivers, few, by decide, ?_, ?_⟩
  · rw [(echo_outcome zeroLines zeroLinesInPieces delivers {} []).1 few]
    decide +kernel
  · rw [(echo_outcome zeroLines zeroLinesInPieces delivers {} []).2 (by decide)]
    decide +kernel

end Tool
end Console
