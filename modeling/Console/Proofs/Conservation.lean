import Console.Proofs.Passage
import Console.Session

/-!
# Reading loses nothing

Whatever faults a source has, the bytes that reads take and the bytes left
unread are the bytes there were, in their order, and a read that gives a text
takes at least one. A read takes bytes that stand together, and ends either
with these or with the first stop after them.
-/
namespace Console

/-- What was taken is `piece`, and a stop right after it. -/
def Signal.Stopped (signals : List Signal) (piece : Bytes) (rest : List Signal) : Prop :=
  ∃ fault, signals = ofBytes piece ++ .stop fault :: rest

namespace Source

/-- Between two states of a source `piece` was taken, and right after it a stop:
a fault that is no interruption, or an end of input that passes. -/
def Stopped (before : Source) (piece : Bytes) (after : Source) : Prop :=
  Signal.Stopped before.signals piece after.signals

/-- How a line read as `text` takes its bytes: `content` and then `ending`. -/
structure LineTaken (before : Source) (text : Text) (content ending : Bytes) (after : Source) :
    Prop where
  progress : content ++ ending ≠ []
  unbroken : ∀ byte ∈ content, byte ≠ lineFeed ∧ byte ≠ carriageReturn
  text_eq : text = Text.ofBytes content
  ending_mem : ending ∈ [[], [lineFeed], [carriageReturn], [carriageReturn, lineFeed]]
  /-- A line without an end is the last one or was stopped. -/
  endless : ending = [] → after.unread = [] ∨ before.Stopped content after
  /-- A line feed after a carriage return is left only where a stop came between. -/
  torn : ending = [carriageReturn] → after.unread.head? = some lineFeed →
    before.Stopped (content ++ [carriageReturn]) after

/-- `piece` is what the next read takes, and it explains what the read gives. -/
def Explains (before : Source) (extent : Extent) (piece : Bytes) : Prop :=
  let after := (before.read extent).source
  match extent, (before.read extent).text with
  | _, none => piece = [] ∧ (before.unread = [] ∨ before.Stopped [] after)
  | .character, some text => ∃ byte, piece = [byte] ∧ text = Text.ofBytes [byte]
  | .line, some text =>
    ∃ content ending, piece = content ++ ending ∧ before.LineTaken text content ending after

private theorem unread_of_taken (before : Source) (piece : Bytes) (after : Source)
    (taken : before.signals = Signal.ofBytes piece ++ after.signals) :
    before.unread = piece ++ after.unread := by
  simpa using congrArg Signal.bytes taken

private theorem unread_of_stopped (before : Source) (piece : Bytes) (after : Source)
    (stopped : before.Stopped piece after) : before.unread = piece ++ after.unread := by
  obtain ⟨fault, signals⟩ := stopped
  simpa using congrArg Signal.bytes signals

private theorem explains_none (before : Source) (extent : Extent)
    (nothing : (before.read extent).text = none)
    (finished : before.unread = [] ∨ before.Stopped [] (before.read extent).source) :
    before.Explains extent [] := by
  cases extent <;> simp [Explains, nothing, finished]

private theorem explains_line (before : Source) (text : Text) (content ending : Bytes)
    (given : (before.read .line).text = some text)
    (taken : before.LineTaken text content ending (before.read .line).source) :
    before.Explains .line (content ++ ending) := by
  simp only [Explains, given]
  exact ⟨content, ending, rfl, taken⟩

private theorem unbroken_content (signals : List Signal) :
    ∀ byte ∈ Signal.content signals, byte ≠ lineFeed ∧ byte ≠ carriageReturn := by
  intro byte member
  have inside := Signal.endsLine_of_mem_content signals byte member
  simpa [endsLine] using inside

private theorem explains_character (before : Source) (byte : UInt8)
    (given : (before.read .character).text = some (Text.ofBytes [byte])) :
    before.Explains .character [byte] := by
  simp only [Explains, given]
  exact ⟨byte, rfl, rfl⟩

private theorem character_explained (before : Source) :
    ∃ piece, before.unread = piece ++ (before.read .character).source.unread ∧
      before.Explains .character piece := by
  have text := text_read before .character
  have rest := signals_read before .character
  simp only [Passage.read] at text rest
  rcases Passage.character_cases before.signals with
    ⟨finished, passed⟩ | ⟨fault, later, signals, passed⟩ | ⟨byte, later, signals, passed⟩
  · rw [passed] at text rest
    have empty : before.unread = [] := by rw [← bytes_signals, finished]; rfl
    refine ⟨[], unread_of_taken before [] _ ?_, explains_none before .character text (Or.inl empty)⟩
    rw [finished, rest]
    rfl
  · rw [passed] at text rest
    have stopped : before.Stopped [] (before.read .character).source :=
      ⟨fault, by rw [signals, rest]; rfl⟩
    exact ⟨[], unread_of_stopped before [] _ stopped,
      explains_none before .character text (Or.inr stopped)⟩
  · rw [passed] at text rest
    refine ⟨[byte], unread_of_taken before [byte] _ ?_, explains_character before byte text⟩
    rw [signals, rest]
    rfl

private theorem concluded_explained (before : Source) (log : List Notice) (rest : List Signal)
    (passed : Passage.line before.lineCapacity before.signals =
      Passage.conclude (Signal.content before.signals) before.lineCapacity log rest)
    (ended : before.signals = Signal.ofBytes (Signal.content before.signals) ∧ rest = [] ∨
      Signal.Stopped before.signals (Signal.content before.signals) rest) :
    ∃ piece, before.unread = piece ++ (before.read .line).source.unread ∧
      before.Explains .line piece := by
  have text := text_read before .line
  have left := signals_read before .line
  simp only [Passage.read, passed, Passage.rest_conclude] at text left
  rw [← left] at ended
  have kept : before.unread =
      Signal.content before.signals ++ (before.read .line).source.unread := by
    rcases ended with ⟨all, finished⟩ | stopped
    · exact unread_of_taken before _ _ (by rw [finished]; simpa using all)
    · exact unread_of_stopped before _ _ stopped
  have last : (before.read .line).source.unread = [] ∨
      before.Stopped (Signal.content before.signals) (before.read .line).source := by
    rcases ended with ⟨-, finished⟩ | stopped
    · exact Or.inl (by rw [← bytes_signals, finished]; rfl)
    · exact Or.inr stopped
  refine ⟨Signal.content before.signals, kept, ?_⟩
  by_cases blank : Signal.content before.signals = []
  · -- a line that has not begun is none, and what ended it stood before the first byte
    rw [blank] at text kept last ⊢
    apply explains_none before .line text
    rcases last with finished | stopped
    · exact Or.inl (by rw [kept, finished]; rfl)
    · exact Or.inr stopped
  · rw [Passage.conclude, if_neg (by simpa using blank)] at text
    rw [← List.append_nil (Signal.content before.signals)]
    apply explains_line before _ _ _ text
    exact {
      progress := by simpa using blank
      unbroken := unbroken_content before.signals
      text_eq := rfl
      ending_mem := by simp
      endless := fun _ => last
      torn := by simp }

private theorem completed_explained (before : Source) (ending : Bytes) (log : List Notice)
    (rest : List Signal)
    (passed : Passage.line before.lineCapacity before.signals =
      Passage.complete (Signal.content before.signals) before.lineCapacity log rest)
    (ending_mem : ending ∈ [[lineFeed], [carriageReturn], [carriageReturn, lineFeed]])
    (ended : before.signals = Signal.ofBytes (Signal.content before.signals ++ ending) ++ rest ∧
        (ending = [carriageReturn] → (Signal.bytes rest).head? ≠ some lineFeed) ∨
      Signal.Stopped before.signals (Signal.content before.signals ++ ending) rest) :
    ∃ piece, before.unread = piece ++ (before.read .line).source.unread ∧
      before.Explains .line piece := by
  have text := text_read before .line
  have left := signals_read before .line
  simp only [Passage.read, passed, Passage.complete] at text left
  rw [← left] at ended
  have nonempty : ending ≠ [] := by
    rintro rfl
    simp at ending_mem
  refine ⟨Signal.content before.signals ++ ending, ?_, ?_⟩
  · rcases ended with ⟨taken, -⟩ | stopped
    · exact unread_of_taken before _ _ taken
    · exact unread_of_stopped before _ _ stopped
  · apply explains_line before _ _ _ text
    exact {
      progress := by simp [nonempty]
      unbroken := unbroken_content before.signals
      text_eq := rfl
      ending_mem := List.mem_cons_of_mem _ ending_mem
      endless := fun none => absurd none nonempty
      torn := by
        intro returned next
        rcases ended with ⟨-, other⟩ | stopped
        · rw [bytes_signals] at other
          exact absurd next (other returned)
        · exact returned ▸ stopped }

private theorem line_explained (before : Source) :
    ∃ piece, before.unread = piece ++ (before.read .line).source.unread ∧
      before.Explains .line piece := by
  rcases Passage.line_cases before.lineCapacity before.signals with
    ⟨all, passed⟩ | ⟨fault, later, signals, passed⟩ | ⟨later, signals, passed⟩ |
      ⟨later, signals, passed⟩
  · exact concluded_explained before _ _ passed (Or.inl ⟨all, rfl⟩)
  · exact concluded_explained before _ _ passed (Or.inr ⟨fault, signals⟩)
  · apply completed_explained before [lineFeed] _ _ passed (by simp)
    exact Or.inl ⟨signals, by simp [lineFeed, carriageReturn]⟩
  · -- after a carriage return it is the look ahead that decides what else is taken
    rcases Signal.lookAhead_cases later with
      ⟨other, looked⟩ | ⟨fault, rest, rfl, looked⟩ | ⟨rest, rfl, looked⟩
    · rw [looked] at passed
      apply completed_explained before [carriageReturn] _ _ passed (by simp)
      exact Or.inl ⟨signals, fun _ => other⟩
    · rw [looked] at passed
      apply completed_explained before [carriageReturn] _ _ passed (by simp)
      exact Or.inr ⟨fault, signals⟩
    · rw [looked] at passed
      apply completed_explained before [carriageReturn, lineFeed] _ _ passed (by simp)
      exact Or.inl ⟨by simpa using signals, by simp⟩

/-- Each read takes a piece off the beginning of what is unread. -/
theorem read_explained (before : Source) (extent : Extent) :
    ∃ piece, before.unread = piece ++ (before.read extent).source.unread ∧
      before.Explains extent piece := by
  cases extent with
  | line => exact line_explained before
  | character => exact character_explained before

end Source

/-- Pieces account for the reads of a session if each is what its read takes. -/
inductive Session.Accounts : Session → List Extent → List Bytes → Prop
  | done (session : Session) : Accounts session [] []
  | read {session : Session} {extent : Extent} {piece : Bytes} {extents : List Extent}
      {pieces : List Bytes}
      (taken : session.source.unread =
        piece ++ (session.step (.read extent)).2.source.unread)
      (explained : session.source.Explains extent piece)
      (later : Accounts (session.step (.read extent)).2 extents pieces) :
      Accounts session (extent :: extents) (piece :: pieces)

/-- In every session the pieces taken by the reads, in their order, and what is
left unread make up the input, and each piece explains the answer of its read. -/
theorem Session.reads_account_for_input (session : Session) (extents : List Extent) :
    ∃ pieces, session.Accounts extents pieces ∧
      session.source.unread =
        pieces.flatten ++ (session.run (extents.map .read)).2.source.unread := by
  induction extents generalizing session with
  | nil => exact ⟨[], .done session, rfl⟩
  | cons extent extents ih =>
    obtain ⟨piece, taken, explained⟩ := Source.read_explained session.source extent
    obtain ⟨pieces, accounts, total⟩ := ih (session.step (.read extent)).2
    refine ⟨piece :: pieces, .read taken explained accounts, ?_⟩
    have split : session.source.unread = piece ++ (session.step (.read extent)).2.source.unread :=
      taken
    rw [split, total]
    exact (List.append_assoc _ _ _).symm

end Console
