import Console.Proofs.EchoOutcome
import Console.Proofs.IntegerOutcome
import Console.Proofs.Paths

/-!
# All or nothing

However the tool is called, it does all that it was asked to or nothing. If it
fails or is stopped, it has printed nothing, has said why, and has left every
file as it was. If it succeeds, it has said nothing on the side, and has echoed and
counted every text that it was to echo. Files are changed in one case only: the
header is written to a path. Then the file there has the bytes that are printed
without a path.
-/
namespace Console

/-! ## The header as bytes -/

private theorem zero_mem_utf8EncodeChar_iff (char : Char) :
    0 ∈ String.utf8EncodeChar char ↔ char = Char.ofNat 0 := by
  have code : char = Char.ofNat 0 ↔ char.val.toNat = 0 := by
    constructor
    · rintro rfl
      rfl
    · intro zero
      exact Char.ext (UInt32.toNat_inj.mp zero)
  have byte (number : Nat) : 0 = UInt8.ofNat number ↔ number % 256 = 0 := by
    rw [← UInt8.toNat_inj, UInt8.toNat_ofNat', UInt8.toNat_zero, eq_comm]
  -- every byte of a longer code has its highest bit set
  rw [code, String.utf8EncodeChar]
  generalize char.val.toNat = value
  split
  · simp only [List.mem_singleton, byte]
    omega
  · split
    · simp only [List.mem_cons, List.not_mem_nil, byte, or_false]
      omega
    · split <;>
      · simp only [List.mem_cons, List.not_mem_nil, byte, or_false]
        omega

theorem zero_mem_utf8_iff (string : String) :
    0 ∈ utf8 string ↔ Char.ofNat 0 ∈ string.toList := by
  simp [utf8, zero_mem_utf8EncodeChar_iff]

namespace Interface

private theorem zero_not_mem_append {first second : String}
    (one : Char.ofNat 0 ∉ first.toList) (other : Char.ofNat 0 ∉ second.toList) :
    Char.ofNat 0 ∉ (first ++ second).toList := by
  simp [one, other]

private theorem zero_not_mem_paragraph :
    ∀ entry ∈ functions, Char.ofNat 0 ∉ entry.paragraph.toList := by
  simp [functions, Entry.paragraph, Signature.declaration, Signature.returnName,
    Signature.parameterList, separated, Parameter.declaration, ValueType.cName]

private theorem zero_not_mem_opening : Char.ofNat 0 ∉ opening.toList :=
  zero_not_mem_append (zero_not_mem_append (zero_not_mem_append (by simp) (by simp)) (by simp))
    (by simp)

private theorem zero_not_mem_closing : Char.ofNat 0 ∉ closing.toList := by
  change Char.ofNat 0 ∉ "\n#endif\n".toList
  simp

/-- The header has no zero in it, so a text holds all of it. -/
theorem content_header : (Text.ofString header).content = utf8 header := by
  apply Text.content_ofBytes_of_zero_not_mem
  rw [zero_mem_utf8_iff]
  refine zero_not_mem_append (zero_not_mem_append zero_not_mem_opening ?_) zero_not_mem_closing
  intro member
  rw [String.toList_join] at member
  obtain ⟨paragraph, listed, inside⟩ := List.mem_flatMap.mp member
  obtain ⟨entry, among, rfl⟩ := List.mem_map.mp listed
  exact zero_not_mem_paragraph entry among inside

end Interface

/-! ## Every way to end -/

namespace Tool

open Machine

/-- The outcome of a command that prints and succeeds. -/
def Outcome.printed (out : Bytes) (tree : Tree) : Outcome :=
  { ending := .exit 0, stdout := out, stderr := "", tree }

/-- The outcome of a command that fails, or is stopped, for a reason. -/
def Outcome.failed (ending : Ending) (reason : String) (tree : Tree) : Outcome :=
  { ending, stdout := [], stderr := reason, tree }

theorem execute_of_error {program : Program Unit} {stdin : Source} {tree : Tree} {halt : Halt}
    {after : Machine} (halted : program (Machine.ofInput stdin) = .error halt after)
    (silent : after.output.accepted = #[]) :
    execute program stdin tree = .failed .aborted (report halt) tree := by
  simp only [execute, halted, silent]
  rfl

/-- Echoing succeeds, however many texts there are. -/
theorem execute_echo_eq_printed (extent : Extent) (stdin : Source) (tree : Tree) :
    ∃ out, execute (echo extent) stdin tree = .printed out tree := by
  obtain ⟨texts, yields⟩ := Source.exists_yields extent stdin
  exact ⟨_, execute_echo_of_yields extent texts stdin tree yields⟩

theorem run_header (stdin : Source) (tree : Tree) :
    run ["header"] stdin tree = .printed (utf8 Interface.header) tree := by
  have printed := execute_emit (.print (Text.ofString Interface.header)) stdin tree
  refine printed.trans ?_
  simp [Outcome.printed, Interface.content_header]

theorem writeHeader_cases (path : String) (tree : Tree) :
    (∃ after, tree.write path (utf8 Interface.header) = .ok after ∧
      writeHeader path tree = .printed [] after) ∨
    (∃ error : SystemError, tree.write path (utf8 Interface.header) = .error error ∧
      writeHeader path tree = .failed (.exit 1) (unwritten path error.message) tree) := by
  unfold writeHeader
  cases written : tree.write path (utf8 Interface.header) with
  | ok after => exact Or.inl ⟨after, rfl, rfl⟩
  | error error => exact Or.inr ⟨error, rfl, rfl⟩

/-! What is said in the end is never empty, since its last part is not. -/

private theorem append_ne_empty (first : String) {last : String} (said : last ≠ "") :
    first ++ last ≠ "" := by
  intro empty
  exact said (String.append_eq_empty_iff.mp empty).2

theorem unwritten_ne_empty (path reason : String) : unwritten path reason ≠ "" :=
  append_ne_empty _ (by decide)

theorem usage_ne_empty : usage ≠ "" :=
  append_ne_empty _ (by decide)

theorem report_ne_empty (cause : Fatal) : report (.fatal cause) ≠ "" :=
  append_ne_empty _ (by decide)

/-! ## The arguments -/

theorem arguments_of_header (arguments : List String) (path : String)
    (asked : Command.ofArguments? arguments = some (.header (some path))) :
    ∃ more, arguments = "header" :: path :: more := by
  unfold Command.ofArguments? at asked
  split at asked
  next rest =>
    have head : rest.head? = some path := by simpa using asked
    obtain ⟨more, rfl⟩ := List.head?_eq_some_iff.mp head
    exact ⟨more, rfl⟩
  all_goals simp at asked

/-- What is looked at of the arguments: the command, and a path or a number if it takes one. -/
def heeded (arguments : List String) : List String :=
  let takesOne := arguments.head? = some "header" ∨ arguments.head? = some "print-int"
  arguments.take (if takesOne then 2 else 1)

/-- Arguments beyond those do not matter. -/
theorem ofArguments?_heeded (arguments : List String) :
    Command.ofArguments? (heeded arguments) = Command.ofArguments? arguments := by
  fun_cases Command.ofArguments? arguments with
  | case1 rest => cases rest <;> rfl
  | case2 | case3 | case4 | case5 => rfl
  | case6 _ header lines chars number nullText =>
    -- what begins a list that asks for nothing asks for nothing
    obtain ⟨rest, whole⟩ : heeded arguments <+: arguments := List.take_prefix _ _
    generalize heeded arguments = kept at whole
    fun_cases Command.ofArguments? kept with
    | case1 => exact (header _ whole.symm).elim
    | case2 => exact (lines _ whole.symm).elim
    | case3 => exact (chars _ whole.symm).elim
    | case4 => exact (number _ _ whole.symm).elim
    | case5 => exact (nullText _ whole.symm).elim
    | case6 => rfl

/-! ## All or nothing -/

/-- The tool prints and leaves all files alone, or it fails and does nothing else, or it was
asked to write the header to a path and has written it. -/
theorem run_cases (arguments : List String) (stdin : Source) (tree : Tree) :
    (∃ out, run arguments stdin tree = .printed out tree) ∨
    (∃ ending reason, ending ≠ .exit 0 ∧ reason ≠ "" ∧
      run arguments stdin tree = .failed ending reason tree) ∨
    (∃ path more after, arguments = "header" :: path :: more ∧
      run arguments stdin tree = .printed [] after) := by
  unfold run
  cases asked : Command.ofArguments? arguments with
  | none => exact .inr (.inl ⟨.exit 2, usage, by decide, usage_ne_empty, rfl⟩)
  | some command =>
    cases command with
    | header path =>
      cases path with
      | none => exact .inl ⟨_, run_header stdin tree⟩
      | some path =>
        obtain ⟨more, called⟩ := arguments_of_header arguments path asked
        rcases writeHeader_cases path tree with ⟨after, -, wrote⟩ | ⟨error, -, failed⟩
        · exact .inr (.inr ⟨path, more, after, called, wrote⟩)
        · exact .inr (.inl ⟨.exit 1, _, by decide, unwritten_ne_empty path _, failed⟩)
    | echo extent => exact .inl (execute_echo_eq_printed extent stdin tree)
    | printInteger number => exact .inl ⟨_, execute_emit _ stdin tree⟩
    | nullText =>
      -- the text is missed before anything is put out
      have stopped : print (.println .null) (Machine.ofInput stdin) =
          .error (.fatal (.nullText "println")) _ := rfl
      exact .inr (.inl ⟨.aborted, _, by decide, report_ne_empty _, execute_of_error stopped rfl⟩)

/-- A header written to a path stands there, and nothing else has changed. It is not written
where the way is blocked or the path is too long. -/
theorem run_header_at (path : List Name) (more : List String) (stdin : Source) (tree : Tree) :
    (¬ (tree.Blocks path ∨ Name.TooLong path) ∧ ∃ after,
      run ("header" :: Name.join path :: more) stdin tree = .printed [] after ∧
        tree.Written after path (utf8 Interface.header)) ∨
    ((tree.Blocks path ∨ Name.TooLong path) ∧ ∃ reason,
      run ("header" :: Name.join path :: more) stdin tree = .failed (.exit 1) reason tree) := by
  have decides (after : Tree) := write_eq_ok_iff tree after path (utf8 Interface.header)
  simp only [← not_or] at decides
  rcases writeHeader_cases (Name.join path) tree with ⟨after, ok, wrote⟩ | ⟨error, no, failed⟩
  · obtain ⟨clear, rfl⟩ := (decides after).mp ok
    have named : path ≠ [] := fun nothing => clear (.inl (.unnamed nothing))
    exact .inl ⟨clear, _, wrote, Tree.written_insert tree path _ named⟩
  · -- a path with a clear way would have been written to
    have blocked : tree.Blocks path ∨ Name.TooLong path := by
      by_contra clear
      have ok := (decides _).mpr ⟨clear, rfl⟩
      rw [no] at ok
      exact nomatch ok
    exact .inr ⟨blocked, _, failed⟩

/-- What an outcome has whatever was asked for: a failure does nothing but say why, a success
says nothing, texts are all echoed and counted, and what changes the files is a header written
to a path. -/
structure Outcome.AllOrNothing (outcome : Outcome) (arguments : List String) (stdin : Source)
    (tree : Tree) : Prop where
  of_failure : outcome.ending ≠ .exit 0 →
    outcome.stdout = [] ∧ outcome.stderr ≠ "" ∧ outcome.tree = tree
  of_success : outcome.ending = .exit 0 → outcome.stderr = ""
  of_echo : ∀ extent, Command.ofArguments? arguments = some (.echo extent) →
    outcome.ending = .exit 0 ∧ ∃ texts, stdin.Yields extent texts ∧
      outcome.stdout =
        texts.flatMap (echoOf extent) ++ totalEcho (totalLabel extent) texts.length
  of_change : outcome.tree ≠ tree → ∃ path more, arguments = "header" :: path :: more ∧
    outcome.ending = .exit 0 ∧ outcome.stdout = []

/-- If it is texts that the tool is to echo, their count fits in 32 bits. -/
def CountFits (arguments : List String) (stdin : Source) : Prop :=
  ∀ extent texts, Command.ofArguments? arguments = some (.echo extent) →
    stdin.Yields extent texts → texts.length ≤ 2 ^ 31 - 1

theorem run_of_countFits (arguments : List String) (stdin : Source) (tree : Tree)
    (fits : CountFits arguments stdin) (extent : Extent)
    (asked : Command.ofArguments? arguments = some (.echo extent)) :
    ∃ texts, stdin.Yields extent texts ∧ run arguments stdin tree =
      .printed (texts.flatMap (echoOf extent) ++ totalEcho (totalLabel extent) texts.length)
        tree := by
  obtain ⟨texts, yields⟩ := Source.exists_yields extent stdin
  refine ⟨texts, yields, ?_⟩
  rw [run, asked]
  exact execute_echo extent texts stdin tree yields (fits extent texts asked yields)

theorem allOrNothing_run (arguments : List String) (stdin : Source) (tree : Tree)
    (fits : CountFits arguments stdin) :
    (run arguments stdin tree).AllOrNothing arguments stdin tree := by
  -- only an echo could succeed and fall short, in its count
  have of_echo (extent : Extent)
      (asked : Command.ofArguments? arguments = some (.echo extent)) :
      (run arguments stdin tree).ending = .exit 0 ∧ ∃ texts, stdin.Yields extent texts ∧
        (run arguments stdin tree).stdout =
          texts.flatMap (echoOf extent) ++ totalEcho (totalLabel extent) texts.length := by
    obtain ⟨texts, yields, ended⟩ := run_of_countFits arguments stdin tree fits extent asked
    exact ⟨by rw [ended]; rfl, texts, yields, by rw [ended]; rfl⟩
  rcases run_cases arguments stdin tree with
    ⟨out, ended⟩ | ⟨ending, reason, fails, given, ended⟩ | ⟨path, more, after, called, ended⟩
  all_goals rw [ended] at of_echo ⊢
  · exact ⟨by simp [Outcome.printed], by simp [Outcome.printed], of_echo,
      by simp [Outcome.printed]⟩
  · exact ⟨by simp [Outcome.failed, given], by simp [Outcome.failed, fails], of_echo,
      by simp [Outcome.failed]⟩
  · exact ⟨by simp [Outcome.printed], by simp [Outcome.printed], of_echo,
      by simp [Outcome.printed, called]⟩

/-- The tool does all or nothing. It writes the header to a path of ordinary names just as it
prints it, unless the way is blocked or too long, and it looks at no further arguments. -/
theorem all_or_nothing (arguments : List String) (stdin : Source) (tree : Tree)
    (fits : CountFits arguments stdin) :
    let outcome := run arguments stdin tree
    let header := (run ["header"] stdin tree).stdout
    outcome.AllOrNothing arguments stdin tree ∧
    header = utf8 Interface.header ∧
    (∀ path more, arguments = "header" :: Name.join path :: more →
      (outcome.ending = .exit 0 →
        outcome.stdout = [] ∧ tree.Written outcome.tree path header) ∧
      (outcome.ending = .exit 0 ∨ outcome.ending = .exit 1) ∧
      (outcome.ending = .exit 1 ↔ tree.Blocks path ∨ Name.TooLong path)) ∧
    run (heeded arguments) stdin tree = outcome := by
  intro outcome header
  have printed : header = utf8 Interface.header := by
    simp only [header, run_header, Outcome.printed]
  have heeds : run (heeded arguments) stdin tree = outcome := by
    simp only [outcome, run, ofArguments?_heeded]
  refine ⟨allOrNothing_run arguments stdin tree fits, printed, ?_, heeds⟩
  rintro path more rfl
  rw [printed]
  rcases run_header_at path more stdin tree with
    ⟨clear, after, ended, written⟩ | ⟨blocked, reason, ended⟩
  · simp [outcome, ended, Outcome.printed, clear, written]
  · simp [outcome, ended, Outcome.failed, blocked]

/-- The path `d/x`. -/
def inside : List Name :=
  [⟨"d", by decide, by decide, by decide⟩, ⟨"x", by decide, by decide, by decide⟩]

/-- A file in a directory is replaced, and what follows the path is not looked at. Lines that
come in pieces are echoed and counted. -/
theorem all_or_nothing_of_replaced :
    let tree := Tree.addFile {} "d/x" [7]
    let outcome := run ["header", "d/x", "lines"] {} tree
    let echoed := run ["lines"] zeroLinesInPieces tree
    (CountFits ["header", "d/x", "lines"] {} ∧ outcome.ending = .exit 0 ∧ outcome.stdout = [] ∧
      outcome.stderr = "" ∧ tree.Written outcome.tree inside (utf8 Interface.header)) ∧
    CountFits ["lines"] zeroLinesInPieces ∧ echoed.ending = .exit 0 ∧ echoed.stderr = "" ∧
      ∃ texts, zeroLinesInPieces.Yields .line texts ∧
        echoed.stdout = texts.flatMap (echoOf .line) ++ totalEcho "lines: " texts.length := by
  intro tree outcome echoed
  have fits (arguments : List String) (stdin : Source) (short : stdin.unread.length < 8) :
      CountFits arguments stdin := by
    intro extent texts _ yields
    have most := yields.length_le
    omega
  constructor
  · have succeeds : outcome.ending = .exit 0 := by rfl
    have header := fits ["header", "d/x", "lines"] {} (by decide)
    obtain ⟨framed, printed, placed, -⟩ :=
      all_or_nothing ["header", "d/x", "lines"] {} tree header
    obtain ⟨wrote, -⟩ := placed inside ["lines"] (by rfl)
    rw [printed] at wrote
    exact ⟨header, succeeds, (wrote succeeds).1, framed.of_success succeeds, (wrote succeeds).2⟩
  · have lines := fits ["lines"] zeroLinesInPieces (by decide)
    obtain ⟨framed, -⟩ := all_or_nothing ["lines"] zeroLinesInPieces tree lines
    obtain ⟨succeeds, echo⟩ := framed.of_echo .line rfl
    exact ⟨lines, succeeds, framed.of_success succeeds, echo⟩

/-- A name like any other, of one letter and so many more. -/
def Name.ofLetters (more : Nat) : Name where
  string := String.ofList ('a' :: List.replicate more 'a')
  nonempty empty := by simpa using congrArg String.toList empty
  no_dots := ⟨fun dot => by simpa using congrArg String.toList dot,
    fun dots => by simpa using congrArg String.toList dots⟩
  no_slash := by simp

theorem length_utf8_ofLetters (more : Nat) :
    (utf8 (Name.ofLetters more).string).length = more + 1 := by
  have single : 'a'.utf8Size = 1 := by rfl
  simp [utf8, Name.ofLetters, List.flatMap_replicate, single]
  omega

/-- A name of 256 bytes leads nowhere, although nothing stands in the way. -/
theorem header_of_overlong :
    (run ["header", Name.join [.ofLetters 255]] {} {}).ending = .exit 1 ∧
      ¬ Tree.Blocks {} [.ofLetters 255] := by
  have long : nameLimit < (utf8 (Name.ofLetters 255).string).length := by
    rw [length_utf8_ofLetters]
    decide
  have tooLong : Name.TooLong [.ofLetters 255] := .inr ⟨_, List.mem_singleton_self _, long⟩
  constructor
  · rcases run_header_at [.ofLetters 255] [] {} {} with ⟨clear, -⟩ | ⟨-, reason, ended⟩
    · exact absurd (.inr tooLong) clear
    · rw [ended]
      rfl
  · rw [← free_iff_not_blocks _ _ (List.cons_ne_nil _ _), free_singleton]
    simp [Tree.find?, Place.below]

end Tool
end Console
