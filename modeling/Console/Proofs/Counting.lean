import Console.Proofs.EchoOutcome

/-!
# Counting in 32 bits

While it echoes, the tool counts texts in a number of 32 bits and puts no limit
to it, as it does to lengths. However many texts there are, it ends well, but the
count starts again from the least number after the largest. So what is printed in
the end is right just for counts that fit, and for those that come round to the
largest number again.
-/
namespace Console.Tool

/-- The first argument that asks for an echo. -/
def echoArgument : Extent → String
  | .line => "lines"
  | .character => "chars"

/-- How many texts there are in an input. -/
def textCount : Extent → Bytes → Nat
  | .line, input => (Lines.split input).length
  | .character, input => input.length

theorem run_echo (extent : Extent) (stdin : Source) (tree : Tree) (more : List String) :
    run (echoArgument extent :: more) stdin tree = execute (echo extent) stdin tree := by
  cases extent <;> rfl

theorem length_contents (extent : Extent) (input : Bytes) :
    (extent.contents input).length = textCount extent input := by
  cases extent with
  | line => rfl
  | character => exact List.length_map _

/-- However an input is delivered, as many texts are read of it. -/
theorem exists_yields_textCount (extent : Extent) (input : Bytes) (stdin : Source)
    (delivers : stdin.Delivers input) :
    ∃ texts, stdin.Yields extent texts ∧ texts.length = textCount extent input := by
  obtain ⟨texts, yields, contents⟩ := delivers.exists_yields extent
  exact ⟨texts, yields, by rw [← length_contents, ← contents, List.length_map]⟩

/-! ## The count -/

/-- A number of texts as it is counted: up to the largest number, and on from the least. -/
def wrapped (count : Nat) : Int := Int.bmod count (2 ^ 32)

theorem toInt_ofNat_eq_wrapped (count : Nat) : (Int32.ofNat count).toInt = wrapped count :=
  Int32.toInt_ofNat

/-- The count is the clamped one just if it fits, or comes round to the largest number. -/
theorem wrapped_eq_clamped_iff (count : Nat) :
    wrapped count = (min count (2 ^ 31 - 1) : Nat) ↔
      count ≤ 2 ^ 31 - 1 ∨ count % 2 ^ 32 = 2 ^ 31 - 1 := by
  unfold wrapped
  rw [Int.bmod_def]
  split <;> omega

/-- However input is delivered, the tool echoes every text and ends well, and the number of its
last line is the number of texts as it is counted in 32 bits. -/
theorem count_is_wrapped (extent : Extent) (input : Bytes) (stdin : Source)
    (delivers : stdin.Delivers input) (tree : Tree) (more : List String) :
    ∃ texts, stdin.Yields extent texts ∧
      texts.length = textCount extent input ∧
      run (echoArgument extent :: more) stdin tree = {
        ending := .exit 0
        stdout := texts.flatMap (echoOf extent) ++
          (utf8 (totalLabel extent) ++ Decimal.render (wrapped texts.length) ++ [lineFeed])
        stderr := ""
        tree } ∧
      (wrapped texts.length = (min texts.length (2 ^ 31 - 1) : Nat) ↔
        texts.length ≤ 2 ^ 31 - 1 ∨ texts.length % 2 ^ 32 = 2 ^ 31 - 1) := by
  obtain ⟨texts, yields, count⟩ := exists_yields_textCount extent input stdin delivers
  refine ⟨texts, yields, count, ?_, wrapped_eq_clamped_iff texts.length⟩
  rw [run_echo, execute_echo_of_yields extent texts stdin tree yields, countEcho,
    toInt_ofNat_eq_wrapped]

theorem count_is_wrapped_of_zeroLines :
    zeroLinesInPieces.Delivers zeroLines ∧
      ∃ echoes, run ["lines"] zeroLinesInPieces {} = {
        ending := .exit 0
        stdout := echoes ++ utf8 "lines: 3\n"
        stderr := ""
        tree := {} } := by
  have delivers : zeroLinesInPieces.Delivers zeroLines := ⟨by decide, by decide⟩
  obtain ⟨texts, -, count, outcome, -⟩ :=
    count_is_wrapped .line zeroLines zeroLinesInPieces delivers {} []
  have three : texts.length = 3 := count.trans (by decide +kernel)
  have last : utf8 (totalLabel .line) ++ Decimal.render (wrapped texts.length) ++ [lineFeed] =
      utf8 "lines: 3\n" := by
    rw [three]
    decide +kernel
  rw [last] at outcome
  exact ⟨delivers, _, outcome⟩

/-- One byte more than 32 bits can count. -/
def tooMany : Bytes := List.replicate (2 ^ 31) 0

/-- One text too many, and the count is negative. -/
theorem count_of_tooMany :
    textCount .character tooMany = 2 ^ 31 ∧
      (∃ echoes, run ["chars"] tooMany {} = {
        ending := .exit 0
        stdout := echoes ++ utf8 "chars: -2147483648\n"
        stderr := ""
        tree := {} }) ∧
      ¬ utf8 "chars: 2147483647\n" <:+ (run ["chars"] tooMany {}).stdout := by
  have many : textCount .character tooMany = 2 ^ 31 := List.length_replicate
  obtain ⟨texts, yields, count⟩ :=
    exists_yields_textCount .character tooMany tooMany (Source.delivers_ofBytes tooMany)
  have last : countEcho (totalLabel .character) (Int32.ofNat texts.length) =
      utf8 "chars: -2147483648\n" := by
    rw [count, many]
    decide +kernel
  have outcome : run ["chars"] tooMany {} = {
      ending := .exit 0
      stdout := texts.flatMap (echoOf .character) ++ utf8 "chars: -2147483648\n"
      stderr := ""
      tree := {} } := by
    rw [← last, ← execute_echo_of_yields .character texts tooMany {} yields]
    exact run_echo .character tooMany {} []
  refine ⟨many, ⟨_, outcome⟩, ?_⟩
  rw [outcome]
  intro clamped
  -- the clamped line is shorter than the last one, so it would be the end of it
  have inside : utf8 "chars: 2147483647\n" <:+ utf8 "chars: -2147483648\n" :=
    List.suffix_of_suffix_length_le clamped (List.suffix_append _ _) (by decide)
  exact absurd inside (by decide)

end Console.Tool
