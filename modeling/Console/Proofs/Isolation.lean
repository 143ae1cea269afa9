import Console.Proofs.Tracking

/-!
# Texts that were handed over

What became of a text that a read returned can be told from the record of the
calls: which read it was, what was written through its own slot since, and
whether it was released. Nothing else that was read, printed, written or
released has a part in it, be its content the same or not.
-/
namespace Console

namespace Text

/-- A text after some of its bytes have become others, one after the other. -/
def rewritten (text : Text) (writes : List (Nat × UInt8)) : Text :=
  writes.foldl (fun text write => text.overwrite write.1 write.2) text

theorem content_rewritten (text : Text) (writes : List (Nat × UInt8))
    (nonzero : ∀ write ∈ writes, write.2 ≠ 0) :
    (text.rewritten writes).content =
      writes.foldl (fun content write => content.set write.1 write.2) text.content := by
  induction writes generalizing text with
  | nil => rfl
  | cons write later ih =>
    obtain ⟨first, others⟩ := List.forall_mem_cons.mp nonzero
    rw [List.foldl_cons, ← text.content_overwrite write.1 write.2 first]
    exact ih _ others

theorem length_rewritten (text : Text) (writes : List (Nat × UInt8))
    (nonzero : ∀ write ∈ writes, write.2 ≠ 0) :
    (text.rewritten writes).length = text.length := by
  induction writes generalizing text with
  | nil => rfl
  | cons write later ih =>
    obtain ⟨first, others⟩ := List.forall_mem_cons.mp nonzero
    refine (ih _ others).trans ?_
    rw [length, text.content_overwrite write.1 write.2 first, List.length_set, length]

end Text

namespace Script

/-! ## What a record of calls tells -/

/-- What a read returned, a text or null. -/
def Answer.taken? (answer : Answer) : Call → Option (Option Text)
  | .read _ =>
    match answer.result with
    | .text text => some text
    | .done | .length _ | .halted _ => none
  | .print _ | .println _ | .printNumber _ _ | .printPair _ _ | .printInteger _ | .textLength _
  | .free _ | .poke _ _ _ | .peek _ => none

/-- What the reads among some calls returned, one entry for each slot that they filled. -/
def textsRead (calls : List Call) (answers : List Answer) : List (Option Text) :=
  (calls.zip answers).filterMap fun made => made.2.taken? made.1

theorem textsRead_cons (call : Call) (calls : List Call) (answer : Answer)
    (answers : List Answer) :
    textsRead (call :: calls) (answer :: answers) =
      (answer.taken? call).toList ++ textsRead calls answers := by
  rw [textsRead, List.zip_cons_cons, List.filterMap_cons]
  cases answer.taken? call <;> rfl

/-- Where a call writes through a slot, and which byte. -/
def Call.writes? (index : Nat) : Call → Option (Nat × UInt8)
  | .poke (.slot slot) offset byte => if slot = index then some (offset, byte) else none
  | .poke (.bytes _) _ _ | .poke .null _ _ | .print _ | .println _ | .printNumber _ _
  | .printPair _ _ | .printInteger _ | .textLength _ | .read _ | .free _ | .peek _ => none

/-- All that is written through a slot. -/
def writesOn (index : Nat) (calls : List Call) : List (Nat × UInt8) :=
  calls.filterMap (Call.writes? index)

/-- The text that an operand leads to after some calls. A slot has the text of the read
that filled it, rewritten through this slot, until this slot is released. -/
def textHeld? (calls : List Call) (answers : List Answer) : Operand → Option Text
  | .bytes bytes => some (Text.ofBytes bytes)
  | .slot index =>
    if .free (.slot index) ∈ calls then none
    else (textsRead calls answers)[index]?.join.map (·.rewritten (writesOn index calls))
  | .null => none

/-! ## What a slot holds from call to call -/

/-- What a slot holds after a call that does not fill it. -/
def Holding.follow (index : Nat) (holding : Holding) (call : Call) : Holding :=
  if call = .free (.slot index) then holding.release
  else
    match call.writes? index with
    | some (offset, byte) => holding.overwrite offset byte
    | none => holding

theorem Holding.text?_foldl_follow (index : Nat) (holding : Holding) (calls : List Call) :
    (calls.foldl (follow index) holding).text? =
      if .free (.slot index) ∈ calls then none
      else holding.text?.map (·.rewritten (writesOn index calls)) := by
  induction calls generalizing holding with
  | nil => cases holding <;> rfl
  | cons call rest ih =>
    rw [List.foldl_cons, ih]
    by_cases released : call = .free (.slot index)
    · -- what is released once has no text any more
      have gone : (follow index holding call).text? = none := by
        cases holding <;> simp [follow, released, release, text?]
      simp [released ▸ gone, released]
    · have member : Call.free (.slot index) ∈ call :: rest ↔ .free (.slot index) ∈ rest := by
        simp [Ne.symm released]
      simp only [member, writesOn, List.filterMap_cons, follow, if_neg released]
      cases written : call.writes? index with
      | none => rfl
      | some write => cases holding <;> rfl

namespace Ledger

/-- A change to a filled slot is a change to one entry. -/
theorem getElem?_update_append (ledger : Ledger) (slot index : Nat) (alter : Holding → Holding)
    (more : List Holding) (filled : (ledger.find? (.slot slot)).isSome = true) :
    ((ledger.update (.slot slot) alter).holdings.toList ++ more)[index]? =
      (ledger.holdings.toList ++ more)[index]?.map
        fun holding => if slot = index then alter holding else holding := by
  have inside : slot < ledger.holdings.size := by simpa [find?] using filled
  by_cases early : index < ledger.holdings.size
  · rw [List.getElem?_append_left (by simpa [update] using early),
      List.getElem?_append_left (by simpa using early), Array.getElem?_toList,
      Array.getElem?_toList, update, Array.getElem?_modify]
    split <;> simp
  · -- what comes after the filled slots is out of reach
    have other : slot ≠ index := by omega
    simp [List.getElem?_append_right, update, other, Nat.le_of_not_lt early]

/-- One call: a read fills the next slot, and each slot goes on by itself. -/
theorem getElem?_after (ledger : Ledger) (output : Output) (call : Call) (index : Nat)
    (more : List Holding) (permitted : ledger.permits call = true) :
    ((ledger.after call).holdings.toList ++ more)[index]? =
      (ledger.holdings.toList ++
        (((ledger.reply output call).taken? call).toList.map Holding.ofText ++ more))[index]?.map
        (Holding.follow index · call) := by
  cases call with
  | print text | println text | printNumber text number | printPair first second
  | printInteger number | textLength text | peek text =>
    simp [after, Answer.taken?, Holding.follow, Call.writes?]
  | read extent =>
    simp [after, Answer.taken?, reply, result, Holding.follow, Call.writes?]
  | free text =>
    cases text with
    | bytes bytes => cases permitted
    | null => simp [after, update, Answer.taken?, Holding.follow, Call.writes?]
    | slot slot =>
      obtain ⟨holding, found, -⟩ := ledger.find?_of_isUsable (.slot slot) permitted
      rw [after, ledger.getElem?_update_append slot index _ more (by simp [found])]
      simp [Answer.taken?, Holding.follow, Call.writes?]
  | poke text offset byte =>
    cases text with
    | bytes bytes => cases permitted
    | null => cases permitted
    | slot slot =>
      -- only a text that is there may be written to
      have filled : (ledger.find? (.slot slot)).isSome = true := by
        simp only [permits, Bool.and_eq_true, Option.any_eq_true] at permitted
        obtain ⟨⟨text, found, -⟩, -⟩ := permitted
        exact ledger.isSome_find?_of_text _ text found
      rw [after, ledger.getElem?_update_append slot index _ more filled]
      simp only [Answer.taken?, Option.toList_none, List.map_nil, List.nil_append, Holding.follow,
        Call.writes?, reduceCtorEq, if_false]
      congr 1
      funext holding
      split <;> rfl

/-- A whole run: a slot holds what a read returned, and only the calls on this slot
have changed it. -/
theorem getElem?_reached (ledger : Ledger) (output : Output) (calls rest : List Call)
    (index : Nat) (lawful : ledger.lawful calls = true) (harmless : ledger.harmless calls = true) :
    (ledger.reached calls).holdings[index]? =
      (ledger.holdings.toList ++
        (textsRead calls (ledger.replies output (calls ++ rest))).map Holding.ofText)[index]?.map
        (calls.foldl (Holding.follow index)) := by
  induction calls generalizing ledger output with
  | nil => simp [reached, textsRead]
  | cons call calls ih =>
    obtain ⟨⟨permitted, returns⟩, lawful, harmless⟩ :=
      ledger.returns_of_cons call calls lawful harmless
    -- the induction is on the calls, so what was held before the first call stays general
    have first : ledger.reached (call :: calls) = (ledger.after call).reached calls := rfl
    rw [first, ih _ (ledger.effect output call).2 lawful harmless,
      ledger.getElem?_after output call index _ permitted, Option.map_map, List.cons_append,
      ledger.replies_of_returns output call _ permitted returns,
      textsRead_cons, List.map_append]
    rfl

/-- What an operand leads to is told by the record, if nothing was held at first. -/
theorem text?_reached (ledger : Ledger) (output : Output) (calls rest : List Call)
    (empty : ledger.holdings = #[]) (lawful : ledger.lawful calls = true)
    (harmless : ledger.harmless calls = true) :
    (ledger.reached calls).text? =
      textHeld? calls (ledger.replies output (calls ++ rest)) := by
  funext operand
  cases operand with
  | bytes bytes | null => rfl
  | slot index =>
    rw [text?, find?, ledger.getElem?_reached output calls rest index lawful harmless, textHeld?,
      empty, List.nil_append, List.getElem?_map]
    cases (textsRead calls _)[index]? with
    | none => simp
    | some taken =>
      -- the read that filled the slot returned null, or a text
      simp only [Option.map_some, Option.bind_some, Holding.text?_foldl_follow]
      cases taken <;> simp [Holding.ofText, Holding.text?]

/-- Calls that keep the rules write no zero. -/
theorem nonzero_of_mem_writesOn (ledger : Ledger) (calls : List Call) (index : Nat)
    (lawful : ledger.lawful calls = true) (harmless : ledger.harmless calls = true)
    (write : Nat × UInt8) (member : write ∈ writesOn index calls) : write.2 ≠ 0 := by
  induction calls generalizing ledger with
  | nil => cases member
  | cons call rest ih =>
    obtain ⟨⟨permitted, -⟩, lawful, harmless⟩ := ledger.returns_of_cons call rest lawful harmless
    obtain ⟨written, among, wrote⟩ := List.mem_filterMap.mp member
    rcases List.mem_cons.mp among with rfl | later
    · cases written with
      | poke text offset byte =>
        cases text with
        | slot slot =>
          simp only [permits, Bool.and_eq_true, bne_iff_ne] at permitted
          simp only [Call.writes?, Option.ite_none_right_eq_some, Option.some.injEq] at wrote
          exact wrote.2 ▸ permitted.2
        | bytes bytes | null => cases wrote
      | print text | println text | printNumber text number | printPair first second
      | printInteger number | textLength text | read extent | free text | peek text =>
        cases wrote
    · exact ih _ lawful harmless (List.mem_filterMap.mpr ⟨written, later, wrote⟩)

end Ledger

/-- Whatever calls were made before, a text that was read and not released is the text
that the read returned, with what was written through its own slot since. Its length
is the same and there is no zero in it. This is what a later call finds, be it to look
at the text, to measure it or to print it. -/
theorem texts_kept_apart (input : Input) (output : Output) (before after : List Call)
    (call : Call) (answer : Answer)
    (answered : (run { input, output } #[] (before ++ call :: after))[before.length]? =
      some answer) :
    let answers := run { input, output } #[] (before ++ call :: after)
    (∀ (index : Nat) (original : Text), (textsRead before answers)[index]? = some (some original) →
      .free (.slot index) ∉ before →
      ∃ text, textHeld? before answers (.slot index) = some text ∧
        text.content = (writesOn index before).foldl
          (fun content write => content.set write.1 write.2) original.content ∧
        text.length = original.length ∧ 0 ∉ text.content) ∧
    (∀ operand text, textHeld? before answers operand = some text →
      (call = .peek operand → answer = { out := [], log := [], result := .text (some text) }) ∧
      (call = .textLength operand →
        answer = { out := [], log := [], result := .length text.length })) ∧
    (output.Ready → ∀ printing resolved, call.printing? = some printing →
      printing.mapM (textHeld? before answers) = some resolved →
      answer = { out := resolved.rendering, log := [], result := .done }) := by
  rw [run_eq_replies_of_start] at answered ⊢
  have empty : ({ input } : Ledger).holdings = #[] := rfl
  generalize ({ input } : Ledger) = ledger at answered empty ⊢
  intro answers
  have inside := (List.getElem?_eq_some_iff.mp answered).1
  obtain ⟨lawful, harmless⟩ := ledger.returned_of_answered output before (call :: after) inside
  have held : textHeld? before answers = (ledger.reached before).text? :=
    (ledger.text?_reached output before (call :: after) empty lawful harmless).symm
  refine ⟨?_, ?_, ?_⟩
  · intro index original taken kept
    have nonzero := ledger.nonzero_of_mem_writesOn before index lawful harmless
    refine ⟨original.rewritten (writesOn index before), ?_,
      original.content_rewritten _ nonzero, original.length_rewritten _ nonzero,
      Text.zero_not_mem _⟩
    rw [textHeld?, if_neg kept, taken]
    rfl
  · intro operand text found
    rw [held] at found
    obtain ⟨usable, notNull⟩ := Ledger.usable_of_text _ operand text found
    constructor
    · rintro rfl
      have told := ledger.getElem?_replies output before after (.peek operand) lawful harmless usable
        rfl
      rw [answered, Option.some.injEq, Ledger.reply_of_quiet _ _ _ rfl rfl, Ledger.result,
        found] at told
      exact told
    · rintro rfl
      have told := ledger.getElem?_replies output before after (.textLength operand) lawful harmless
        usable notNull
      rw [answered, Option.some.injEq, Ledger.reply_of_quiet _ _ _ rfl rfl, Ledger.result,
        found] at told
      exact told
  · intro ready printing resolved known found
    have prints : (ledger.reached before).printing? call = some resolved := by
      rw [Ledger.printing?, known, ← held]
      exact found
    obtain ⟨permitted, returns⟩ := Ledger.permitted_of_printing _ call resolved prints
    have told := ledger.getElem?_replies output before after call lawful harmless permitted returns
    rw [answered, Option.some.injEq, Ledger.reply_of_printing _ _ call resolved
      (ledger.ready_outputAfter output before ready) prints] at told
    exact told

/-- Two lines with the same content. -/
def twins : Input := .working { pending := [.data [97, 98, 10], .data [97, 98]] }

/-- Both lines are read, one is written to through its slot, the other one released. -/
def twinCalls : List Call :=
  [.read .line, .read .line, .poke (.slot 1) 0 120, .free (.slot 0), .read .line]

theorem texts_kept_apart_of_twins :
    let answers := run { input := twins } #[] (twinCalls ++ [.printPair (.slot 1) (.bytes [33])])
    let answer : Answer := { out := [120, 98, 33, 10], log := [], result := .done }
    answers[5]? = some answer ∧
      (textsRead twinCalls answers)[1]? = some (some (Text.ofBytes [97, 98])) ∧
      .free (.slot 1) ∉ twinCalls ∧
      (∃ text, textHeld? twinCalls answers (.slot 1) = some text ∧
        text.content = (writesOn 1 twinCalls).foldl
          (fun content write => content.set write.1 write.2) (Text.ofBytes [97, 98]).content ∧
        text.length = (Text.ofBytes [97, 98]).length ∧ 0 ∉ text.content) ∧
      (Printing.printPair (.slot 1) (.bytes [33])).mapM (textHeld? twinCalls answers) =
        some (.printPair (Text.ofBytes [120, 98]) (Text.ofBytes [33])) ∧
      answer = {
        out := (Printing.printPair (Text.ofBytes [120, 98]) (Text.ofBytes [33])).rendering
        log := []
        result := .done } := by
  intro answers answer
  have answered : answers[5]? = some answer := by decide +kernel
  have taken : (textsRead twinCalls answers)[1]? = some (some (Text.ofBytes [97, 98])) := by
    decide +kernel
  have found : (Printing.printPair (.slot 1) (.bytes [33])).mapM (textHeld? twinCalls answers) =
      some (.printPair (Text.ofBytes [120, 98]) (Text.ofBytes [33])) := by
    decide +kernel
  have apart := texts_kept_apart twins {} twinCalls [] (.printPair (.slot 1) (.bytes [33])) answer
    answered
  exact ⟨answered, taken, by decide, apart.1 1 _ taken (by decide), found,
    apart.2.2 ⟨rfl, rfl⟩ _ _ rfl found⟩

end Script
end Console
