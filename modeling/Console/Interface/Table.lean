import Console.Interface.Signature

/-!
# The table of functions

Every function that a C program may call, and the C header that declares them.
-/
namespace Console.Interface

/-- A function with a line on what it does. -/
structure Entry extends Signature where
  doc : String
deriving DecidableEq

def functions : List Entry := [
  { name := "print"
    parameters := [⟨"text", .text⟩]
    returns := none
    doc := "Print a string, without a newline" },
  { name := "println"
    parameters := [⟨"text", .text⟩]
    returns := none
    doc := "Print a string with a newline" },
  { name := "printn"
    parameters := [⟨"text", .text⟩, ⟨"n", .int⟩]
    returns := none
    doc := "Print a string and a number, with a newline" },
  { name := "prints"
    parameters := [⟨"first", .text⟩, ⟨"second", .text⟩]
    returns := none
    doc := "Print a string and a string, with a newline" },
  { name := "print_int"
    parameters := [⟨"n", .int⟩]
    returns := none
    doc := "Print a number with a newline" },
  { name := "textlen"
    parameters := [⟨"text", .text⟩]
    returns := some .size
    doc := "Get the length of a string" },
  { name := "linein"
    parameters := []
    returns := some .ownedText
    doc := "Get a line of input from the user, or NULL at the end of input" },
  { name := "readchar"
    parameters := []
    returns := some .ownedText
    doc := "Get a single character from the user, or NULL at the end of input" },
  { name := "text_free"
    parameters := [⟨"text", .ownedText⟩]
    returns := none
    doc := "Release a string returned by linein or readchar" }]

def lookup? (name : String) : Option Entry := functions.find? (·.name = name)

def contains (name : String) : Bool := functions.any (·.name = name)

/-- A function as it stands in the header, after a blank line. -/
def Entry.paragraph (entry : Entry) : String :=
  "\n/// " ++ entry.doc ++ "\n" ++ entry.declaration ++ "\n"

def opening : String :=
  "/// Runtime library functions\n" ++
  "/// Strings returned by linein and readchar are owned by the caller.\n\n" ++
  "#ifndef PSEUDO_RUNTIME_H\n#define PSEUDO_RUNTIME_H\n\n" ++
  "#include <stddef.h>\n"

def closing : String := "\n#endif\n"

def header : String := opening ++ String.join (functions.map Entry.paragraph) ++ closing

end Console.Interface
