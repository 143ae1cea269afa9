import Console.Proofs.Tracking

/-!
# A null where a text is needed

A program that passes null where a text is needed is stopped there, before
anything is printed by that call, and all it did before stands. A program that
never does so runs to its end. Whether an address is null depends on all that
was read before: a blank line and a zero byte are texts, and only the end of
input gives null.
-/
namespace Console

namespace Script

namespace Ledger

theorem not_halted_of_mem_replies (ledger : Ledger) (output : Output) (calls : List Call)
    (lawful : ledger.lawful calls = true) (harmless : ledger.harmless calls = true)
    (answer : Answer) (member : answer ∈ ledger.replies output calls) (halt : Halt) :
    answer.result ≠ .halted halt := by
  induction calls generalizing ledger output with
  | nil => nomatch member
  | cons call rest ih =>
    obtain ⟨⟨permitted, returns⟩, lawful, harmless⟩ :=
      ledger.returns_of_cons call rest lawful harmless
    rw [ledger.replies_of_returns output call rest permitted returns] at member
    rcases List.mem_cons.mp member with rfl | later
    · exact ledger.result_ne_halted call halt
    · exact ih _ _ lawful harmless later

/-- Calls that are not harmless have a first one that is fatal. -/
theorem exists_first_fatal (ledger : Ledger) (calls : List Call)
    (fatal : ledger.harmless calls = false) :
    ∃ before call after, calls = before ++ call :: after ∧ ledger.harmless before = true ∧
      (ledger.reached before).isFatal call = true := by
  induction calls generalizing ledger with
  | nil => nomatch fatal
  | cons call rest ih =>
    -- it is this call, or the first one among the rest
    cases here : ledger.isFatal call with
    | true => exact ⟨[], call, rest, rfl, rfl, here⟩
    | false =>
      have later : (ledger.after call).harmless rest = false := by
        simpa [harmless, here] using fatal
      obtain ⟨before, first, after, rfl, harmless, stops⟩ := ih (ledger.after call) later
      exact ⟨call :: before, first, after, rfl, by simp [Ledger.harmless, here, harmless], stops⟩

/-- The first fatal call is the last one answered. -/
theorem replies_of_first_fatal (ledger : Ledger) (output : Output) (before after : List Call)
    (call : Call) (lawful : ledger.lawful (before ++ call :: after) = true)
    (harmless : ledger.harmless before = true)
    (fatal : (ledger.reached before).isFatal call = true) :
    ledger.replies output (before ++ call :: after) =
      ledger.replies output before ++ [.ofFatal (.nullText call.operation)] := by
  rw [ledger.lawful_append before _ harmless, Bool.and_eq_true, Ledger.lawful,
    Bool.and_eq_true] at lawful
  rw [ledger.replies_append output before _ lawful.1 harmless,
    replies_of_fatal _ _ call after lawful.2.1 fatal]

/-- Releasing null changes nothing that a caller holds. -/
theorem after_of_free_null (ledger : Ledger) (operand : Operand)
    (null : ledger.isNull operand = true) : ledger.after (.free operand) = ledger := by
  cases operand with
  | bytes bytes | null => rfl
  | slot index => exact ledger.update_of_same index .null .release (beq_iff_eq.mp null) rfl

theorem permits_free_of_null (ledger : Ledger) (operand : Operand)
    (null : ledger.isNull operand = true) : ledger.permits (.free operand) = true := by
  cases operand with
  | bytes bytes => nomatch (beq_iff_eq.mp null : ledger.find? (.bytes bytes) = some .null)
  | slot index | null => simp [permits, isUsable, null]

/-- A release of null can be left out: only its own answer is missing then. -/
theorem replies_of_free_null (ledger : Ledger) (output : Output) (before after : List Call)
    (operand : Operand) (lawful : ledger.lawful before = true)
    (harmless : ledger.harmless before = true)
    (null : (ledger.reached before).isNull operand = true) :
    ledger.replies output (before ++ .free operand :: after) =
      (ledger.replies output (before ++ after)).insertIdx before.length
        { out := [], log := [], result := .done } := by
  induction before generalizing ledger output with
  | nil =>
    rw [List.nil_append, ledger.replies_of_returns output _ after
      (ledger.permits_free_of_null operand null) rfl, ledger.after_of_free_null operand null,
      ledger.reply_of_quiet output _ rfl rfl]
    rfl
  | cons call before ih =>
    -- a call before is answered alike in both, so the new answer moves one place
    obtain ⟨⟨permitted, returns⟩, lawful, harmless⟩ :=
      ledger.returns_of_cons call before lawful harmless
    rw [List.cons_append, List.cons_append, List.length_cons,
      ledger.replies_of_returns output call _ permitted returns,
      ledger.replies_of_returns output call _ permitted returns, List.insertIdx_succ_cons,
      ih _ _ lawful harmless null]

end Ledger

/-- A program stops at the first call that is given null for a text, and at no
other. Up to there every call is answered as if nothing came after. The call
that stops it prints nothing, and the one notice names it. Releasing null is
answered and leaves all other answers as they are. -/
theorem stops_at_first_null (input : Input) (output : Output) (calls : List Call)
    (keeps : KeepsRules input output calls) :
    let ledger : Ledger := { input }
    let answers (calls : List Call) := run { input, output } #[] calls
    (ledger.harmless calls = true →
      (answers calls).length = calls.length ∧
        ∀ answer ∈ answers calls, ∀ halt, answer.result ≠ .halted halt) ∧
    (ledger.harmless calls = false →
      ∃ before call after cause, calls = before ++ call :: after ∧
        ledger.harmless before = true ∧ (ledger.reached before).isFatal call = true ∧
        cause.message = "`" ++ call.operation ++ "` was called with a null text pointer" ∧
        (answers before).length = before.length ∧ answers calls = answers before ++
          [{ out := [], log := [.fatal cause], result := .halted (.fatal cause) }]) ∧
    (∀ before operand after, calls = before ++ .free operand :: after →
      ledger.harmless before = true → (ledger.reached before).isNull operand = true →
      answers calls = (answers (before ++ after)).insertIdx before.length
        { out := [], log := [], result := .done }) := by
  intro ledger answers
  have lawful : ledger.lawful calls = true := (keepsRules_iff_lawful input output calls).mp keeps
  have told (calls : List Call) : answers calls = ledger.replies output calls :=
    run_eq_replies_of_start input output calls
  simp only [told]
  refine ⟨?_, ?_, ?_⟩
  · intro harmless
    exact ⟨ledger.length_replies output calls lawful harmless,
      ledger.not_halted_of_mem_replies output calls lawful harmless⟩
  · intro fatal
    obtain ⟨before, call, after, rfl, harmless, stops⟩ := ledger.exists_first_fatal calls fatal
    have allowed : ledger.lawful before = true := by
      rw [ledger.lawful_append before _ harmless, Bool.and_eq_true] at lawful
      exact lawful.1
    exact ⟨before, call, after, .nullText call.operation, rfl, harmless, stops, rfl,
      ledger.length_replies output before allowed harmless,
      ledger.replies_of_first_fatal output before after call lawful harmless stops⟩
  · rintro before operand after rfl harmless null
    rw [ledger.lawful_append before _ harmless, Bool.and_eq_true] at lawful
    exact ledger.replies_of_free_null output before after operand lawful.1 harmless null

/-- A blank line and a zero, then the end of input. -/
def lookalikes : Input := .working { pending := [.data [10], .data [0]] }

/-- Three reads give two empty texts and null. The null is released without harm
and then passed as the second of two texts. -/
def lookalikeCalls : List Call :=
  [.read .line, .read .character, .read .character, .println (.slot 0), .free (.slot 2),
    .print (.slot 1), .printPair (.slot 0) (.slot 2), .printInteger 7]

theorem stops_at_first_null_of_lookalikes :
    KeepsRules lookalikes {} lookalikeCalls ∧
      ({ input := lookalikes } : Ledger).harmless lookalikeCalls = false ∧
      (run { input := lookalikes } #[] lookalikeCalls)[6]? =
        some (.ofFatal (.nullText "prints")) ∧
      (∃ before call after cause, lookalikeCalls = before ++ call :: after ∧
        ({ input := lookalikes } : Ledger).harmless before = true ∧
        (({ input := lookalikes } : Ledger).reached before).isFatal call = true ∧
        cause.message = "`" ++ call.operation ++ "` was called with a null text pointer" ∧
        (run { input := lookalikes } #[] before).length = before.length ∧
        run { input := lookalikes } #[] lookalikeCalls =
          run { input := lookalikes } #[] before ++
            [{ out := [], log := [.fatal cause], result := .halted (.fatal cause) }]) ∧
      run { input := lookalikes } #[] lookalikeCalls =
        (run { input := lookalikes } #[] (lookalikeCalls.eraseIdx 4)).insertIdx 4
          { out := [], log := [], result := .done } := by
  have keeps : KeepsRules lookalikes {} lookalikeCalls := by decide +kernel
  have fatal : ({ input := lookalikes } : Ledger).harmless lookalikeCalls = false := by
    decide +kernel
  have stops := stops_at_first_null lookalikes {} lookalikeCalls keeps
  refine ⟨keeps, fatal, by decide +kernel, stops.2.1 fatal, ?_⟩
  exact stops.2.2 (lookalikeCalls.take 4) (.slot 2) (lookalikeCalls.drop 5) rfl
    (by decide +kernel) (by decide +kernel)

end Script
end Console
