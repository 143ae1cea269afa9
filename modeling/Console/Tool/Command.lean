import Console.Interface.Table
import Console.Tool.Echo
import Console.Tool.Tree

/-!
# The command line tool

The tool writes the C header, echoes its input, or prints an integer. It ends
with a status, what it printed, and the tree of files it leaves.
-/
namespace Console.Tool

inductive Command where
  /-- The C header, to a path or else to standard output. -/
  | header (path : Option String)
  | echo (extent : Extent)
  | printInteger (number : Int32)
  /-- Prints a text that is not there, to show how a program is stopped. -/
  | nullText
deriving DecidableEq

/-- The command that arguments ask for. Further arguments do not matter. -/
def Command.ofArguments? : List String → Option Command
  | "header" :: rest => some (.header rest.head?)
  | "lines" :: _ => some (.echo .line)
  | "chars" :: _ => some (.echo .character)
  | "print-int" :: number :: _ => (Decimal.read? number).map .printInteger
  | "null-text" :: _ => some .nullText
  | _ => none

inductive Ending where
  | exit (status : Nat)
  | aborted
deriving DecidableEq

structure Outcome where
  ending : Ending
  stdout : Bytes
  stderr : String
  tree : Tree
deriving DecidableEq

def usage : String :=
  "usage: pseudo-rt header [PATH]   write the C header to PATH (or standard output)\n" ++
  "       pseudo-rt lines           echo each line of standard input with its length\n" ++
  "       pseudo-rt chars           echo each byte of standard input\n" ++
  "       pseudo-rt print-int N     print the integer N\n"

def unwritten (path : String) (reason : String) : String :=
  s!"could not write the header to `{path}`: {reason}\n"

/-- What is said when a program is stopped. -/
def report : Halt → String
  | .fatal cause => s!"runtime error: {cause.message}\n"
  | .misuse => "runtime error: memory was misused\n"

/-- How a program ends that reads its standard input from the given source. -/
def execute (program : Program Unit) (stdin : Source) (tree : Tree) : Outcome :=
  match program (Machine.ofInput stdin) with
  | .ok () after => { ending := .exit 0, stdout := after.output.accepted.toList, stderr := "", tree }
  | .error halt after =>
    { ending := .aborted, stdout := after.output.accepted.toList, stderr := report halt, tree }

def writeHeader (path : String) (tree : Tree) : Outcome :=
  match tree.write path (utf8 Interface.header) with
  | .ok tree => { ending := .exit 0, stdout := [], stderr := "", tree }
  | .error error =>
    { ending := .exit 1, stdout := [], stderr := unwritten path error.message, tree }

def Command.run (command : Command) (stdin : Source) (tree : Tree) : Outcome :=
  match command with
  | .header (some path) => writeHeader path tree
  | .header none => execute (Machine.emit (.print (Text.ofString Interface.header))) stdin tree
  | .echo extent => execute (Tool.echo extent) stdin tree
  | .printInteger number => execute (Machine.printInteger number) stdin tree
  | .nullText => execute (Machine.print (.println .null)) stdin tree

def run (arguments : List String) (stdin : Source) (tree : Tree) : Outcome :=
  match Command.ofArguments? arguments with
  | none => { ending := .exit 2, stdout := [], stderr := usage, tree }
  | some command => command.run stdin tree

end Console.Tool
