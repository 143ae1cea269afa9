import Console.Text
import Console.Proofs.CharacterCodes

/-!
# What is shown of bytes that are no UTF-8

A text is shown by reading its bytes from the front. Where a character's code
stands, that character is read. Where none does, the longest part that begins
some code is lost, or a single byte if even that begins none, and one replacement
stands for it. `Utf8.Reads` says so without a decoder, in terms of codes alone.

It leaves no choice, since no code begins another and a part that is lost cannot
be made longer, and the decoder follows it byte by byte. The laws of what is
shown are then read off `Utf8.Reads`: nothing is lost of the bytes of a string,
ASCII bytes are never drawn into a loss, and every loss can be seen.
-/
namespace Console.Utf8

/-! ## Reading by codes -/

/-- Some code begins with these bytes. -/
def Begins (part : Bytes) : Prop := ∃ char, part <+: String.utf8EncodeChar char

theorem Begins.of_isPrefix {part longer : Bytes} (begins : Begins longer)
    (shorter : part <+: longer) : Begins part := by
  obtain ⟨char, within⟩ := begins
  exact ⟨char, shorter.trans within⟩

/-- What the first character read takes up of the bytes, and what it leaves. -/
inductive Front : Bytes → Bytes → Char → Prop
  | code (char : Char) (rest : Bytes) : Front (String.utf8EncodeChar char) rest char
  -- the longest beginning of a code, of which the end is missing
  | cut {part rest : Bytes} (nonempty : part ≠ []) (begins : Begins part)
      (unfinished : ∀ char, String.utf8EncodeChar char ≠ part)
      (broken : ∀ byte ∈ rest.head?, ¬ Begins (part ++ [byte])) : Front part rest replacement
  -- a byte with which no code begins
  | stray {byte : UInt8} {rest : Bytes} (nothing : ¬ Begins [byte]) :
      Front [byte] rest replacement

/-- The characters that bytes are read as. -/
inductive Reads : Bytes → List Char → Prop
  | nil : Reads [] []
  | next {part rest : Bytes} {char : Char} {chars : List Char} (front : Front part rest char)
      (later : Reads rest chars) : Reads (part ++ rest) (char :: chars)

/-! ## There is one way to read -/

namespace Front

variable {part rest : Bytes} {char : Char}

theorem ne_nil (front : Front part rest char) : part ≠ [] := by
  cases front with
  | code => exact String.utf8EncodeChar_ne_nil
  | cut nonempty _ _ _ => exact nonempty
  | stray _ => exact List.cons_ne_nil _ _

theorem begins_of_one_lt (front : Front part rest char) (long : 1 < part.length) :
    Begins part := by
  cases front with
  | code char rest => exact ⟨char, List.prefix_rfl⟩
  | cut _ begins _ _ => exact begins
  | stray _ => exact absurd long (Nat.lt_irrefl 1)

theorem not_begins_longer (front : Front part rest char) :
    ∀ byte ∈ rest.head?, ¬ Begins (part ++ [byte]) := by
  cases front with
  | code =>
    rintro byte - ⟨other, longer⟩
    -- a longer beginning would be of another code, and no code begins another
    obtain rfl := eq_of_isPrefix_utf8EncodeChar ((List.prefix_append _ _).trans longer)
    have length := longer.length_le
    rw [List.length_append, List.length_singleton] at length
    omega
  | cut _ _ _ broken => exact broken
  | stray nothing =>
    exact fun byte _ begins => nothing (begins.of_isPrefix (List.prefix_append _ _))

/-- A front cannot be made longer, so another front of the same bytes is no longer. -/
theorem eq_of_isPrefix {longer others : Bytes} {other : Char} (front : Front part rest char)
    (second : Front longer others other) (same : part ++ rest = longer ++ others)
    (within : part <+: longer) : part = longer := by
  obtain ⟨more, rfl⟩ := within
  cases more with
  | nil => rw [List.append_nil]
  | cons byte more =>
    rw [List.append_assoc, List.append_cancel_left_eq] at same
    -- a front of several bytes begins a code, and so does one byte more of the shorter front
    have begins : Begins (part ++ byte :: more) := by
      apply second.begins_of_one_lt
      have := List.length_pos_iff.mpr front.ne_nil
      simp only [List.length_append, List.length_cons]
      omega
    have inside : part ++ [byte] <+: part ++ byte :: more := by simp
    exact absurd (begins.of_isPrefix inside)
      (front.not_begins_longer byte (by simp [same]))

theorem eq_of_code (front : Front part rest char) {other : Char}
    (code : String.utf8EncodeChar other = part) : char = other := by
  cases front with
  | code => exact eq_of_isPrefix_utf8EncodeChar (code ▸ List.prefix_rfl)
  | cut _ _ unfinished _ => exact absurd code (unfinished other)
  | stray nothing => exact absurd ⟨other, code ▸ List.prefix_rfl⟩ nothing

theorem eq_replacement (front : Front part rest char)
    (lost : ∀ other, String.utf8EncodeChar other ≠ part) : char = replacement := by
  cases front with
  | code => exact absurd rfl (lost char)
  | cut _ _ _ _ => rfl
  | stray _ => rfl

theorem unique {other others : Bytes} {char' : Char} (front : Front part rest char)
    (second : Front other others char') (same : part ++ rest = other ++ others) :
    part = other ∧ char = char' := by
  have parts : part = other := by
    rcases List.prefix_or_prefix_of_prefix ⟨rest, rfl⟩ ⟨others, same.symm⟩ with within | within
    · exact front.eq_of_isPrefix second same within
    · exact (second.eq_of_isPrefix front same.symm within).symm
  subst parts
  refine ⟨rfl, ?_⟩
  by_cases finished : ∃ read, String.utf8EncodeChar read = part
  · obtain ⟨read, code⟩ := finished
    rw [front.eq_of_code code, second.eq_of_code code]
  · rw [front.eq_replacement (not_exists.mp finished),
      second.eq_replacement (not_exists.mp finished)]

end Front

namespace Reads

variable {bytes : Bytes} {chars : List Char}

theorem unique (reads : Reads bytes chars) {others : List Char} (second : Reads bytes others) :
    chars = others := by
  induction reads generalizing others with
  | nil =>
    generalize empty : [] = bytes at second
    cases second with
    | nil => rfl
    | next front _ => exact absurd (List.append_eq_nil_iff.mp empty.symm).1 front.ne_nil
  | @next part rest char chars front _ ih =>
    generalize same : part ++ rest = bytes at second
    cases second with
    | nil => exact absurd (List.append_eq_nil_iff.mp same).1 front.ne_nil
    | next second later =>
      obtain ⟨rfl, rfl⟩ := front.unique second same
      obtain rfl := List.append_cancel_left same
      rw [ih later]

end Reads

/-! ## The decoder reads by codes -/

/-- A character that has begun breaks off where a byte is not admitted. -/
theorem Front.of_reached {part rest : Bytes} {begun : Begun} (reached : Reached part begun)
    (refused : ∀ byte ∈ rest.head?, ¬ begun.admits byte = true) : Front part rest replacement := by
  obtain ⟨more, char, proper, code⟩ := reached.exists_rest
  refine .cut reached.ne_nil ⟨char, more, code.symm⟩ ?_ ?_
  · intro other whole
    obtain rfl : other = char := eq_of_isPrefix_utf8EncodeChar ⟨more, by rw [whole, code]⟩
    exact proper (List.self_eq_append_right.mp (whole ▸ code))
  · rintro byte member ⟨other, begins⟩
    exact reached.not_isPrefix (refused byte member) other begins

namespace Decoder

/-- The bytes taken of which nothing has been put out yet. -/
def Holds (decoder : Decoder) (part : Bytes) : Prop :=
  match decoder.begun with
  | none => part = []
  | some begun => Reached part begun

theorem holds_iff_eq_nil {decoder : Decoder} (idle : decoder.begun = none) (part : Bytes) :
    decoder.Holds part ↔ part = [] := by
  rw [Holds, idle]

theorem holds_iff_reached {decoder : Decoder} {begun : Begun} (busy : decoder.begun = some begun)
    (part : Bytes) : decoder.Holds part ↔ Reached part begun := by
  rw [Holds, busy]

/-- From one state to the next some characters are put out. Whatever is then read of
the bytes still held, with any that follow, makes with those characters a reading of
all the bytes there were. -/
def Passes (before : Decoder) (bytes : Bytes) (after : Decoder) (part : Bytes) : Prop :=
  ∃ said, after.output.toList = before.output.toList ++ said ∧
    ∀ later chars, Reads (part ++ later) chars → Reads (bytes ++ later) (said ++ chars)

theorem start_passes (decoder : Decoder) (byte : UInt8) (idle : decoder.begun = none) :
    ∃ part, (decoder.start byte).Holds part ∧ decoder.Passes [byte] (decoder.start byte) part := by
  unfold start
  split
  next char opened =>
    refine ⟨[], (holds_iff_eq_nil idle _).mpr rfl, [char], by simp, fun later chars reads => ?_⟩
    rw [← utf8EncodeChar_of_whole opened]
    exact .next (.code char later) reads
  next begun opened =>
    exact ⟨[byte], .opened opened, [], by simp, fun later chars reads => reads⟩
  next opened =>
    refine ⟨[], (holds_iff_eq_nil idle _).mpr rfl, [replacement], by simp,
      fun later chars reads => ?_⟩
    exact .next (.stray fun ⟨char, begins⟩ => not_isPrefix_of_invalid opened char begins) reads

theorem Passes.append {before between after : Decoder} {bytes part bytes' part' : Bytes}
    (first : before.Passes bytes between part)
    (second : between.Passes (part ++ bytes') after part') :
    before.Passes (bytes ++ bytes') after part' := by
  obtain ⟨said, output, reads⟩ := first
  obtain ⟨said', output', reads'⟩ := second
  refine ⟨said ++ said', by rw [output', output, List.append_assoc], fun later chars rest => ?_⟩
  rw [List.append_assoc, List.append_assoc]
  exact reads _ _ (List.append_assoc _ _ _ ▸ reads' later chars rest)

/-- What one byte does. -/
theorem feed_passes (decoder : Decoder) (part : Bytes) (holds : decoder.Holds part)
    (byte : UInt8) :
    ∃ part', (decoder.feed byte).Holds part' ∧
      decoder.Passes (part ++ [byte]) (decoder.feed byte) part' := by
  unfold feed
  split
  next idle =>
    obtain rfl := (holds_iff_eq_nil idle part).mp holds
    exact decoder.start_passes byte idle
  next begun busy =>
    have reached := (holds_iff_reached busy part).mp holds
    split
    next admitted =>
      dsimp only
      split
      next one =>
        have code := reached.utf8EncodeChar_of_finishes (.last admitted one)
        refine ⟨[], rfl, [_], Array.toList_push, fun later chars reads => ?_⟩
        rw [← code]
        exact .next (.code _ later) reads
      next several =>
        exact ⟨part ++ [byte], reached.continued admitted several, [], by simp,
          fun _ _ reads => reads⟩
    next refused =>
      -- what is held is lost, and the byte is taken as if nothing had begun
      have broken : decoder.breakOff = ⟨decoder.output.push replacement, none⟩ := by
        simp only [breakOff, busy]
      obtain ⟨part', holds', said, output, reads⟩ :=
        decoder.breakOff.start_passes byte (by rw [broken])
      refine ⟨part', holds', replacement :: said, ?_, fun later chars rest => ?_⟩
      · rw [output, broken, Array.toList_push, List.append_assoc]
        rfl
      · have front : Front part (byte :: later) replacement := by
          apply Front.of_reached reached
          rintro _ ⟨⟩
          exact refused
        rw [List.append_assoc]
        exact .next front (reads later chars rest)

/-- What all bytes do, one after the other. -/
theorem foldl_feed_passes (decoder : Decoder) (part : Bytes) (holds : decoder.Holds part)
    (bytes : Bytes) :
    ∃ part', (bytes.foldl feed decoder).Holds part' ∧
      decoder.Passes (part ++ bytes) (bytes.foldl feed decoder) part' := by
  induction bytes generalizing decoder part with
  | nil => exact ⟨part, holds, [], by simp, fun later chars reads => by simpa using reads⟩
  | cons byte bytes ih =>
    obtain ⟨part', holds', first⟩ := decoder.feed_passes part holds byte
    obtain ⟨last, kept, second⟩ := ih (decoder.feed byte) part' holds'
    have passes := first.append second
    rw [List.append_assoc] at passes
    exact ⟨last, kept, passes⟩

/-- At the end nothing follows, so what is still held is lost. -/
theorem breakOff_reads (decoder : Decoder) (part : Bytes) (holds : decoder.Holds part) :
    ∃ said, decoder.breakOff.output.toList = decoder.output.toList ++ said ∧ Reads part said := by
  unfold breakOff
  split
  next idle =>
    obtain rfl := (holds_iff_eq_nil idle part).mp holds
    exact ⟨[], by simp, .nil⟩
  next begun busy =>
    have reached := (holds_iff_reached busy part).mp holds
    refine ⟨[replacement], by simp, ?_⟩
    have front : Front part [] replacement := Front.of_reached reached (by simp)
    have reads := Reads.next front .nil
    rwa [List.append_nil] at reads

end Decoder

theorem reads_decode (bytes : Bytes) : Reads bytes (decode bytes) := by
  obtain ⟨part, holds, said, output, reads⟩ := Decoder.foldl_feed_passes {} [] rfl bytes
  obtain ⟨last, ending, rest⟩ := Decoder.breakOff_reads _ part holds
  have whole := reads [] last (by rwa [List.append_nil])
  rw [decode, ending, output]
  simpa using whole

/-- What bytes are decoded to is the one way to read them. -/
theorem decode_eq_iff (bytes : Bytes) (chars : List Char) :
    decode bytes = chars ↔ Reads bytes chars := by
  constructor
  · rintro rfl
    exact reads_decode bytes
  · exact (reads_decode bytes).unique

-- a byte that does not go on with a character may still begin the next one
example : decode [0xF0, 0x9F, 0x41, 0xE0, 0x80, 0xC3, 0xC3, 0xA9] =
    [replacement, 'A', replacement, replacement, replacement, 'é'] := by decide

/-! ## What follows for every reading -/

/-- The bytes are those of some string. -/
def IsUtf8 (bytes : Bytes) : Prop := ∃ string, utf8 string = bytes

/-- An ASCII byte goes on with no code. -/
theorem not_begins_append_ascii {part : Bytes} (nonempty : part ≠ []) {ascii : UInt8}
    (small : ascii.toNat < 0x80) : ¬ Begins (part ++ [ascii]) := by
  rintro ⟨char, more, code⟩
  obtain ⟨lead, others, rfl⟩ := List.exists_cons_of_ne_nil nonempty
  have inside : ascii ∈ (String.utf8EncodeChar char).tail := by simp [← code]
  have large := le_of_mem_tail_utf8EncodeChar char ascii inside
  omega

/-- What an ASCII byte sets apart is read in the same way. -/
theorem Front.append_ascii {part rest : Bytes} {char : Char} (front : Front part rest char)
    {ascii : UInt8} (small : ascii.toNat < 0x80) (more : Bytes) :
    Front part (rest ++ ascii :: more) char := by
  cases front with
  | code => exact .code char _
  | cut nonempty begins unfinished broken =>
    refine .cut nonempty begins unfinished fun byte member => ?_
    -- the part broke off at the next byte, or at the end, where the ASCII byte stands now
    cases rest with
    | nil =>
      obtain rfl : ascii = byte := by simpa using member
      exact not_begins_append_ascii nonempty small
    | cons first rest => exact broken byte member
  | stray nothing => exact .stray nothing

theorem Front.ascii {ascii : UInt8} (small : ascii.toNat < 0x80) (rest : Bytes) :
    Front [ascii] rest (Char.ofNat ascii.toNat) := by
  have code := utf8EncodeChar_ofNat_one ascii.toNat (.inl (by omega)) small
  rw [UInt8.ofNat_toNat] at code
  rw [← code]
  exact .code _ rest

namespace Reads

variable {bytes more : Bytes} {chars others : List Char}

theorem append_ascii (reads : Reads bytes chars) {ascii : UInt8} (small : ascii.toNat < 0x80)
    (later : Reads more others) :
    Reads (bytes ++ ascii :: more) (chars ++ Char.ofNat ascii.toNat :: others) := by
  induction reads with
  | nil =>
    change Reads ([ascii] ++ more) _
    exact .next (Front.ascii small more) later
  | next front _ ih =>
    rw [List.append_assoc]
    exact .next (front.append_ascii small more) ih

theorem utf8_append (string : String) (later : Reads more others) :
    Reads (utf8 string ++ more) (string.toList ++ others) := by
  rw [utf8]
  induction string.toList with
  | nil => exact later
  | cons char rest ih =>
    rw [List.flatMap_cons, List.append_assoc]
    exact .next (.code char _) ih

theorem of_utf8 (string : String) : Reads (utf8 string) string.toList := by
  have reads := Reads.nil.utf8_append string
  rwa [List.append_nil, List.append_nil] at reads

theorem length_le (reads : Reads bytes chars) : chars.length ≤ bytes.length := by
  induction reads with
  | nil => exact Nat.le_refl 0
  | next front _ ih =>
    have taken := List.length_pos_iff.mpr front.ne_nil
    simp only [List.length_cons, List.length_append]
    omega

/-- Where nothing is replaced, nothing is lost. -/
theorem flatMap_eq (reads : Reads bytes chars) (kept : replacement ∉ chars) :
    chars.flatMap String.utf8EncodeChar = bytes := by
  induction reads with
  | nil => rfl
  | next front _ ih =>
    rw [List.mem_cons, not_or] at kept
    rw [List.flatMap_cons, ih kept.2]
    cases front with
    | code => rfl
    | cut _ _ _ _ => exact absurd rfl kept.1
    | stray _ => exact absurd rfl kept.1

theorem zero_not_mem_flatMap (reads : Reads bytes chars) (clean : 0 ∉ bytes) :
    0 ∉ chars.flatMap String.utf8EncodeChar := by
  induction reads with
  | nil => exact List.not_mem_nil
  | next front _ ih =>
    rw [List.mem_append, not_or] at clean
    rw [List.flatMap_cons, List.mem_append, not_or]
    refine ⟨?_, ih clean.2⟩
    cases front with
    | code => exact clean.1
    | cut _ _ _ _ => decide
    | stray _ => decide

end Reads

theorem isUtf8_iff (bytes : Bytes) :
    IsUtf8 bytes ↔ (decode bytes).flatMap String.utf8EncodeChar = bytes := by
  constructor
  · rintro ⟨string, rfl⟩
    rw [(decode_eq_iff _ _).mpr (Reads.of_utf8 string), utf8]
  · intro whole
    exact ⟨String.ofList (decode bytes), by rw [utf8, String.toList_ofList, whole]⟩

instance (bytes : Bytes) : Decidable (IsUtf8 bytes) :=
  decidable_of_iff _ (isUtf8_iff bytes).symm

end Utf8

/-! ## What is shown of a text -/

namespace Text

open Utf8 (IsUtf8 Reads replacement)

/-- What is shown of the text that bytes hold. -/
def shown (bytes : Bytes) : String := (ofBytes bytes).display

theorem shown_eq_iff (bytes : Bytes) (clean : 0 ∉ bytes) (string : String) :
    shown bytes = string ↔ Reads bytes string.toList := by
  rw [← Utf8.decode_eq_iff, shown, display, content_ofBytes_of_zero_not_mem bytes clean]
  constructor
  · rintro rfl
    exact String.toList_ofList.symm
  · intro same
    rw [same, String.ofList_toList]

theorem reads_shown (bytes : Bytes) (clean : 0 ∉ bytes) : Reads bytes (shown bytes).toList :=
  (shown_eq_iff bytes clean _).mp rfl

theorem shown_utf8_append (string : String) (bytes : Bytes) (clean : 0 ∉ utf8 string ++ bytes) :
    shown (utf8 string ++ bytes) = string ++ shown bytes := by
  have rest : 0 ∉ bytes := fun member => clean (List.mem_append_right _ member)
  rw [shown_eq_iff _ clean, String.toList_append]
  exact (reads_shown bytes rest).utf8_append string

theorem shown_utf8 (string : String) (clean : 0 ∉ utf8 string) :
    shown (utf8 string) = string := by
  rw [shown_eq_iff _ clean]
  exact Reads.of_utf8 string

theorem shown_append_ascii (a b : Bytes) (ascii : UInt8) (small : ascii < 0x80)
    (clean : 0 ∉ a ++ ascii :: b) :
    shown (a ++ ascii :: b) =
      shown a ++ String.singleton (Char.ofNat ascii.toNat) ++ shown b := by
  have front : 0 ∉ a := fun member => clean (List.mem_append_left _ member)
  have back : 0 ∉ b := fun member => clean (List.mem_append_right _ (List.mem_cons_of_mem _ member))
  rw [shown_eq_iff _ clean]
  have reads :=
    (reads_shown a front).append_ascii (UInt8.lt_iff_toNat_lt.mp small) (reads_shown b back)
  simpa using reads

theorem zero_not_mem_utf8_shown (bytes : Bytes) (clean : 0 ∉ bytes) : 0 ∉ utf8 (shown bytes) :=
  (reads_shown bytes clean).zero_not_mem_flatMap clean

theorem replacement_mem_shown (bytes : Bytes) (clean : 0 ∉ bytes) (broken : ¬ IsUtf8 bytes) :
    replacement ∈ (shown bytes).toList := by
  apply Decidable.byContradiction
  intro kept
  exact broken ⟨shown bytes, (reads_shown bytes clean).flatMap_eq kept⟩

/-- What is shown of bytes without a zero is what they are read as, code by code.
The bytes of a string are shown as that string, whatever follows them. An ASCII
byte is always shown as itself and sets what comes before it apart from what comes
after. Showing again what was shown changes nothing, bytes of no string are shown
with a replacement, and no more characters are shown than there are bytes. -/
theorem display_replaces_only_breaks (a b : Bytes) (clean : 0 ∉ a) (clean' : 0 ∉ b) :
    (∀ string, shown a = string ↔ Reads a string.toList) ∧
    (IsUtf8 a → utf8 (shown a) = a ∧ shown (a ++ b) = shown a ++ shown b) ∧
    (∀ ascii : UInt8, ascii ≠ 0 → ascii < 0x80 →
      shown (a ++ ascii :: b) =
        shown a ++ String.singleton (Char.ofNat ascii.toNat) ++ shown b) ∧
    shown (utf8 (shown a)) = shown a ∧
    (¬ IsUtf8 a → replacement ∈ (shown a).toList) ∧
    (shown a).length ≤ a.length := by
  have both : 0 ∉ a ++ b := by simp [clean, clean']
  refine ⟨shown_eq_iff a clean, ?_, ?_, ?_, replacement_mem_shown a clean, ?_⟩
  · rintro ⟨string, rfl⟩
    rw [shown_utf8 string clean]
    exact ⟨rfl, shown_utf8_append string b both⟩
  · intro ascii nonzero small
    exact shown_append_ascii a b ascii small (by simp [clean, clean', nonzero.symm])
  · exact shown_utf8 _ (zero_not_mem_utf8_shown a clean)
  · exact (reads_shown a clean).length_le

/-- The first three bytes of a character of four. -/
def brokenFace : Bytes := [0xF0, 0x9F, 0x98]

theorem display_replaces_only_breaks_of_brokenFace :
    (0 ∉ brokenFace ∧ ¬ IsUtf8 brokenFace ∧ replacement ∈ (shown brokenFace).toList ∧
      shown (brokenFace ++ 0x41 :: [0x80]) = shown brokenFace ++ "A" ++ shown [0x80]) ∧
    (IsUtf8 [0xC3, 0xA9] ∧ utf8 (shown [0xC3, 0xA9]) = [0xC3, 0xA9] ∧
      shown ([0xC3, 0xA9] ++ brokenFace) = shown [0xC3, 0xA9] ++ shown brokenFace) := by
  have broken : ¬ IsUtf8 brokenFace := by decide
  have whole : IsUtf8 [0xC3, 0xA9] := by decide
  have first := display_replaces_only_breaks brokenFace [0x80] (by decide) (by decide)
  have second := display_replaces_only_breaks [0xC3, 0xA9] brokenFace (by decide) (by decide)
  exact ⟨⟨by decide, broken, first.2.2.2.2.1 broken, first.2.2.1 0x41 (by decide) (by decide)⟩,
    whole, second.2.1 whole⟩

end Text

end Console
