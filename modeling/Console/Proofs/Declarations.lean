import Console.Interface.Signature

/-!
# Declarations tell signatures apart

A declaration is read back from left to right. Which type stands in front is
clear from its first letters, since no type is written as the beginning of
another. A name ends before the first character that no name holds. So two
signatures with one declaration are one signature, although `void` may stand for
a type, for an empty list of parameters and for a name.
-/
namespace Console.Interface

/-- The characters of names: the letters and digits of ASCII, and the underscore. -/
def isWordCharacter (char : Char) : Bool := char.isAlphanum || char == '_'

structure IsIdentifier (name : String) : Prop where
  nonempty : name ≠ ""
  word : ∀ char ∈ name.toList, isWordCharacter char = true

instance (name : String) : Decidable (IsIdentifier name) :=
  decidable_of_iff (name ≠ "" ∧ name.toList.all isWordCharacter = true)
    ⟨fun both => ⟨both.1, List.all_eq_true.mp both.2⟩,
      fun identifier => ⟨identifier.nonempty, List.all_eq_true.mpr identifier.word⟩⟩

/-- The function and its parameters have proper names. -/
structure Signature.IsNamed (signature : Signature) : Prop where
  name : IsIdentifier signature.name
  parameters : ∀ parameter ∈ signature.parameters, IsIdentifier parameter.name

/-! ## Words and types -/

/-- A word ends before the first character that is none of a word. -/
theorem word_inj {first second rest others : List Char}
    (first_word : ∀ char ∈ first, isWordCharacter char = true)
    (second_word : ∀ char ∈ second, isWordCharacter char = true)
    (rest_ends : ∀ char ∈ rest.head?, isWordCharacter char = false)
    (others_end : ∀ char ∈ others.head?, isWordCharacter char = false)
    (same : first ++ rest = second ++ others) : first = second ∧ rest = others := by
  have word (letters rest : List Char) (inside : ∀ char ∈ letters, isWordCharacter char = true)
      (ends : ∀ char ∈ rest.head?, isWordCharacter char = false) :
      (letters ++ rest).takeWhile isWordCharacter = letters := by
    rw [List.takeWhile_append_of_pos inside]
    cases rest with
    | nil => simp
    | cons char rest => simp [ends char rfl]
  have equal : first = second := by
    rw [← word first rest first_word rest_ends, same, word second others second_word others_end]
  subst equal
  exact ⟨rfl, List.append_cancel_left same⟩

/-- How a type is written, or that there is none. -/
def typeName : Option ValueType → String
  | none => "void"
  | some type => type.cName

theorem returnName_eq_typeName (signature : Signature) :
    signature.returnName = typeName signature.returns := by
  unfold Signature.returnName
  cases signature.returns <;> rfl

/-- No type is written as the beginning of another. -/
theorem eq_of_isPrefix_typeName (first second : Option ValueType)
    (begins : (typeName first).toList <+: (typeName second).toList) : first = second := by
  revert begins
  rcases first with _ | (_ | _ | _ | _) <;> rcases second with _ | (_ | _ | _ | _) <;> decide

theorem typeName_inj {first second : Option ValueType} {rest others : List Char}
    (same : (typeName first).toList ++ rest = (typeName second).toList ++ others) :
    first = second ∧ rest = others := by
  have one : (typeName first).toList <+: (typeName second).toList ++ others := ⟨rest, same⟩
  have other : (typeName second).toList <+: (typeName second).toList ++ others :=
    List.prefix_append _ _
  have equal : first = second := by
    rcases List.prefix_or_prefix_of_prefix one other with begins | begins
    · exact eq_of_isPrefix_typeName first second begins
    · exact (eq_of_isPrefix_typeName second first begins).symm
  subst equal
  exact ⟨rfl, List.append_cancel_left same⟩

/-! ## Lists of parameters -/

/-- What stands after a parameter, up to the end of the declaration. -/
def following : List Parameter → List Char
  | [] => [')', ';']
  | parameter :: rest => ',' :: ' ' :: ((separated (parameter :: rest)).toList ++ [')', ';'])

/-- What stands after the name of a function and the opening bracket. -/
def listed : List Parameter → List Char
  | [] => (typeName none).toList ++ [')', ';']
  | parameter :: rest =>
    (typeName (some parameter.type)).toList ++ ' ' :: (parameter.name.toList ++ following rest)

theorem toList_separated (parameter : Parameter) (rest : List Parameter) :
    (separated (parameter :: rest)).toList ++ [')', ';'] = listed (parameter :: rest) := by
  cases rest <;> simp [listed, following, separated, Parameter.declaration, typeName]

theorem following_cons (parameter : Parameter) (rest : List Parameter) :
    following (parameter :: rest) = ',' :: ' ' :: listed (parameter :: rest) := by
  rw [following, toList_separated]

theorem toList_parameterList (signature : Signature) :
    signature.parameterList.toList ++ [')', ';'] = listed signature.parameters := by
  unfold Signature.parameterList
  cases signature.parameters with
  | nil => rfl
  | cons parameter rest => exact toList_separated parameter rest

theorem isWordCharacter_head_following (parameters : List Parameter) :
    ∀ char ∈ (following parameters).head?, isWordCharacter char = false := by
  cases parameters with
  | nil => simp [following, isWordCharacter]
  | cons parameter rest => simp [following, isWordCharacter]

/-- Parameter by parameter: the type, the name up to the separator, and then the rest. -/
theorem following_inj (first second : List Parameter)
    (first_named : ∀ parameter ∈ first, IsIdentifier parameter.name)
    (second_named : ∀ parameter ∈ second, IsIdentifier parameter.name)
    (same : following first = following second) : first = second := by
  induction first generalizing second with
  | nil =>
    cases second with
    | nil => rfl
    | cons other others => simp [following] at same
  | cons parameter rest ih =>
    cases second with
    | nil => simp [following] at same
    | cons other others =>
      rw [List.forall_mem_cons] at first_named second_named
      rw [following_cons, following_cons, List.cons.injEq, List.cons.injEq] at same
      obtain ⟨type, after_type⟩ := typeName_inj same.2.2
      obtain ⟨-, named⟩ := List.cons.inj after_type
      obtain ⟨name, after_name⟩ := word_inj first_named.1.word second_named.1.word
        (isWordCharacter_head_following rest) (isWordCharacter_head_following others) named
      have head : parameter = other := by
        cases parameter
        cases other
        rw [Parameter.mk.injEq]
        exact ⟨String.toList_inj.mp name, Option.some.inj type⟩
      rw [head, ih others first_named.2 second_named.2 after_name]

/-- An empty list is told from any other, since `void` is no type of a parameter. -/
theorem listed_inj (first second : List Parameter)
    (first_named : ∀ parameter ∈ first, IsIdentifier parameter.name)
    (second_named : ∀ parameter ∈ second, IsIdentifier parameter.name)
    (same : listed first = listed second) : first = second := by
  match first, second with
  | [], [] => rfl
  | [], _ :: _ => exact nomatch (typeName_inj same).1
  | _ :: _, [] => exact nomatch (typeName_inj same).1
  | parameter :: rest, other :: others =>
    apply following_inj _ _ first_named second_named
    rw [following_cons, following_cons, same]

/-! ## Declarations -/

theorem toList_declaration (signature : Signature) :
    signature.declaration.toList = (typeName signature.returns).toList ++
      ' ' :: (signature.name.toList ++ '(' :: listed signature.parameters) := by
  rw [← toList_parameterList, ← returnName_eq_typeName]
  simp [Signature.declaration]

/-- Functions with proper names have one declaration just if they have one name, one type of
result and the same parameters in the same order. -/
theorem declaration_eq_iff (first second : Signature) (first_named : first.IsNamed)
    (second_named : second.IsNamed) :
    first.declaration = second.declaration ↔
      first.name = second.name ∧ first.returns = second.returns ∧
        first.parameters = second.parameters := by
  constructor
  · intro same
    have bracket (parameters : List Parameter) :
        ∀ char ∈ ('(' :: listed parameters).head?, isWordCharacter char = false := by
      simp [isWordCharacter]
    rw [← String.toList_inj, toList_declaration, toList_declaration] at same
    obtain ⟨returns, after_type⟩ := typeName_inj same
    obtain ⟨-, named⟩ := List.cons.inj after_type
    obtain ⟨name, after_name⟩ := word_inj first_named.name.word second_named.name.word
      (bracket first.parameters) (bracket second.parameters) named
    obtain ⟨-, list⟩ := List.cons.inj after_name
    exact ⟨String.toList_inj.mp name, returns,
      listed_inj _ _ first_named.parameters second_named.parameters list⟩
  · rintro ⟨name, returns, parameters⟩
    rw [← String.toList_inj, toList_declaration, toList_declaration, name, returns, parameters]

/-- The function `void void(const char* void, char* int)`. -/
def borrows : Signature where
  name := "void"
  parameters := [⟨"void", .text⟩, ⟨"int", .ownedText⟩]
  returns := none

/-- The function `void void(char* void, char* int)`. -/
def takes : Signature where
  name := "void"
  parameters := [⟨"void", .ownedText⟩, ⟨"int", .ownedText⟩]
  returns := none

theorem declaration_ne_of_borrows :
    borrows.IsNamed ∧ takes.IsNamed ∧ borrows.declaration ≠ takes.declaration := by
  have borrows_named : borrows.IsNamed := ⟨by decide, by decide⟩
  have takes_named : takes.IsNamed := ⟨by decide, by decide⟩
  refine ⟨borrows_named, takes_named, ?_⟩
  rw [Ne, declaration_eq_iff borrows takes borrows_named takes_named]
  decide

end Console.Interface
