import Console.Proofs.Calls
import Console.Proofs.Numerals
import Console.Tool.Command

/-!
# What printing an integer comes to

The tool takes every numeral whose number fits in 32 bits and prints the canonical
one of the same number. Any other string is refused, and the tool tells how it is
used. Standard input has no part in it.
-/
namespace Console

namespace Tool

open Decimal Machine

theorem execute_emit (printing : Printing Text) (stdin : Source) (tree : Tree) :
    execute (emit printing) stdin tree =
      { ending := .exit 0, stdout := printing.rendering, stderr := "", tree } := by
  have printed := emit_of_ready (Machine.ofInput stdin) printing ⟨rfl, rfl⟩
  simp only [execute, printed]
  simp [emitted, Output.accept, Machine.ofInput]

theorem run_of_read (string : String) (number : Int32) (read : read? string = some number)
    (more : List String) (stdin : Source) (tree : Tree) :
    run ("print-int" :: string :: more) stdin tree = {
      ending := .exit 0
      stdout := render number.toInt ++ [lineFeed]
      stderr := ""
      tree } := by
  have printed := execute_emit (.printNumber .empty number.toInt64) stdin tree
  simp only [run, Command.ofArguments?, read, Option.map_some]
  refine printed.trans ?_
  simp [Int32.toInt_toInt64]

theorem run_of_unread (string : String) (unread : read? string = none) (more : List String)
    (stdin : Source) (tree : Tree) :
    run ("print-int" :: string :: more) stdin tree =
      { ending := .exit 2, stdout := [], stderr := usage, tree } := by
  simp only [run, Command.ofArguments?, unread, Option.map_none]

/-- A canonical numeral is printed as it was given. -/
theorem run_of_isCanonical (canonical : Numeral) (shortest : canonical.IsCanonical)
    (number : Int32) (same : canonical.value = number.toInt) (more : List String) (stdin : Source)
    (tree : Tree) :
    run ("print-int" :: canonical.spelling :: more) stdin tree = {
      ending := .exit 0
      stdout := utf8 canonical.spelling ++ [lineFeed]
      stderr := ""
      tree } := by
  have read := (read?_eq_some_iff canonical.spelling number).mpr ⟨canonical, rfl, same⟩
  rw [run_of_read _ number read, ← same, shortest.render_value]

/-- The tool prints an integer if it is given a numeral of 32 bits, in any spelling, and prints
its canonical one. Given anything else it tells how it is used. A canonical numeral comes out
unchanged, and so does whatever came out before. -/
theorem print_integer_outcome (string : String) (more : List String) (stdin : Source)
    (tree : Tree) :
    let outcome := run ("print-int" :: string :: more) stdin tree
    (outcome.ending = .exit 0 ↔ ∃ numeral : Numeral, numeral.spelling = string ∧
      -2 ^ 31 ≤ numeral.value ∧ numeral.value ≤ 2 ^ 31 - 1) ∧
    (∀ numeral : Numeral, numeral.spelling = string →
      -2 ^ 31 ≤ numeral.value → numeral.value ≤ 2 ^ 31 - 1 →
      ∃ canonical : Numeral, canonical.IsCanonical ∧ canonical.value = numeral.value ∧
        outcome = {
          ending := .exit 0
          stdout := utf8 canonical.spelling ++ [lineFeed]
          stderr := ""
          tree }) ∧
    (outcome.ending ≠ .exit 0 →
      outcome = { ending := .exit 2, stdout := [], stderr := usage, tree }) ∧
    (∀ (number : Int32) (canonical : Numeral), canonical.IsCanonical →
      canonical.value = number.toInt →
      run ("print-int" :: canonical.spelling :: more) stdin tree = {
        ending := .exit 0
        stdout := utf8 canonical.spelling ++ [lineFeed]
        stderr := ""
        tree }) ∧
    (∀ printed : String, outcome.ending = .exit 0 → outcome.stdout = utf8 printed ++ [lineFeed] →
      run ("print-int" :: printed :: more) stdin tree = outcome) := by
  intro outcome
  have unchanged (number : Int32) (canonical : Numeral) (shortest : canonical.IsCanonical)
      (same : canonical.value = number.toInt) :=
    run_of_isCanonical canonical shortest number same more stdin tree
  -- a numeral in range is read, so whether the string is read decides it all
  have read (numeral : Numeral) (spelled : numeral.spelling = string)
      (least : -2 ^ 31 ≤ numeral.value) (most : numeral.value ≤ 2 ^ 31 - 1) :
      read? string = some (Int32.ofInt numeral.value) := by
    have kept := Int32.toInt_ofInt_of_le least (by omega)
    exact (read?_eq_some_iff string _).mpr ⟨numeral, spelled, kept.symm⟩
  cases given : read? string with
  | none =>
    have refused : outcome = { ending := .exit 2, stdout := [], stderr := usage, tree } :=
      run_of_unread string given more stdin tree
    have failed : outcome.ending ≠ .exit 0 := by
      rw [refused]
      exact nofun
    refine ⟨iff_of_false failed ?_, ?_, fun _ => refused, unchanged, ?_⟩
    · rintro ⟨numeral, spelled, least, most⟩
      simp [read numeral spelled least most] at given
    · intro numeral spelled least most
      simp [read numeral spelled least most] at given
    · intro printed succeeded
      exact absurd succeeded failed
  | some number =>
    obtain ⟨numeral, spelled, value⟩ := (read?_eq_some_iff string number).mp given
    obtain ⟨canonical, shortest, same⟩ := Numeral.exists_isCanonical number.toInt
    have least := number.le_toInt
    have most := number.toInt_lt
    have accepted : outcome = {
        ending := .exit 0
        stdout := utf8 canonical.spelling ++ [lineFeed]
        stderr := ""
        tree } := by
      rw [← shortest.render_value, same]
      exact run_of_read string number given more stdin tree
    have succeeded : outcome.ending = .exit 0 := by rw [accepted]
    refine ⟨iff_of_true succeeded ⟨numeral, spelled, by omega, by omega⟩, ?_,
      absurd succeeded, unchanged, ?_⟩
    · intro other alike above below
      have equal : Int32.ofInt other.value = number :=
        Option.some.inj ((read other alike above below).symm.trans given)
      have kept := Int32.toInt_ofInt_of_le above (by omega)
      refine ⟨canonical, shortest, ?_, accepted⟩
      rw [same, ← equal, kept]
    · intro printed _ shown
      rw [accepted] at shown
      have again : canonical.spelling = printed :=
        utf8_injective (List.append_cancel_right shown)
      rw [← again, accepted]
      exact unchanged number canonical shortest same

/-- The least number of 32 bits. -/
def leastNumeral : Numeral := ⟨some .minus, [2, 1, 4, 7, 4, 8, 3, 6, 4, 8], by decide⟩

/-- The same with a zero in front. -/
def leastPadded : Numeral := ⟨some .minus, 0 :: leastNumeral.digits, by decide⟩

theorem print_integer_outcome_of_least :
    leastPadded.spelling = "-02147483648" ∧
      -2 ^ 31 ≤ leastPadded.value ∧ leastPadded.value ≤ 2 ^ 31 - 1 ∧
      (∃ canonical : Numeral, canonical.IsCanonical ∧ canonical.value = leastPadded.value ∧
        run ["print-int", "-02147483648"] {} {} = {
          ending := .exit 0
          stdout := utf8 canonical.spelling ++ [lineFeed]
          stderr := ""
          tree := {} }) ∧
      leastNumeral.IsCanonical ∧ leastNumeral.value = Int32.minValue.toInt ∧
      run ["print-int", leastNumeral.spelling] {} {} = {
        ending := .exit 0
        stdout := utf8 leastNumeral.spelling ++ [lineFeed]
        stderr := ""
        tree := {} } := by
  have padded : leastPadded.spelling = "-02147483648" := by decide
  have least : leastNumeral.IsCanonical := ⟨by decide, by decide, by decide⟩
  have outcome := print_integer_outcome "-02147483648" [] {} {}
  exact ⟨padded, by decide, by decide, outcome.2.1 leastPadded padded (by decide) (by decide),
    least, by decide, outcome.2.2.2.1 Int32.minValue leastNumeral least (by decide)⟩

end Tool
end Console
