import Console.Decimal
import Console.Sink
import Console.Text

/-!
# Printing

The four ways to print. Each is a list of pieces written one after the other,
and what a reader gets to see is the pieces joined.
-/
namespace Console

/-- A printing operation over texts given by values of type `α`. -/
inductive Printing (α : Type) where
  | print (text : α)
  | println (text : α)
  | printNumber (text : α) (number : Int64)
  | printPair (first second : α)
deriving DecidableEq

namespace Printing

variable {α β : Type}

/-- The texts that an operation names. -/
def arguments : Printing α → List α
  | .print text | .println text | .printNumber text _ => [text]
  | .printPair first second => [first, second]

/-- Finds each text of an operation, from the first to the last. -/
def mapM {m : Type → Type} [Monad m] (find : α → m β) : Printing α → m (Printing β)
  | .print text => return .print (← find text)
  | .println text => return .println (← find text)
  | .printNumber text number => return .printNumber (← find text) number
  | .printPair first second => return .printPair (← find first) (← find second)

def name : Printing α → String
  | .print _ => "print"
  | .println _ => "println"
  | .printNumber _ _ => "printn"
  | .printPair _ _ => "prints"

def pieces : Printing Text → List Bytes
  | .print text => [text.content]
  | .println text => [text.content, [lineFeed]]
  | .printNumber text number => [text.content, Decimal.render number.toInt, [lineFeed]]
  | .printPair first second => [first.content, second.content, [lineFeed]]

/-- All that an operation prints. -/
def rendering (printing : Printing Text) : Bytes := printing.pieces.flatten

@[simp]
theorem rendering_print (text : Text) : (Printing.print text).rendering = text.content := by
  simp [rendering, pieces]

@[simp]
theorem rendering_println (text : Text) :
    (Printing.println text).rendering = text.content ++ [lineFeed] := by
  simp [rendering, pieces]

@[simp]
theorem rendering_printNumber (text : Text) (number : Int64) :
    (Printing.printNumber text number).rendering =
      text.content ++ Decimal.render number.toInt ++ [lineFeed] := by
  simp [rendering, pieces]

@[simp]
theorem rendering_printPair (first second : Text) :
    (Printing.printPair first second).rendering =
      first.content ++ second.content ++ [lineFeed] := by
  simp [rendering, pieces]

end Printing

def Sink.print (sink : Sink) (printing : Printing Text) : Option Fault × Sink :=
  sink.emit printing.pieces

end Console
