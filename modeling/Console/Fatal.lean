/-!
# Conditions that end the program

A caller has no way to be told of an error, so these stop it for good.
-/
namespace Console

inductive Fatal where
  /-- A text was needed and the null address was given. -/
  | nullText (operation : String)
  /-- Memory for so many bytes was refused. -/
  | outOfMemory (requested : UInt64)
deriving DecidableEq

def Fatal.message : Fatal → String
  | .nullText operation => s!"`{operation}` was called with a null text pointer"
  | .outOfMemory requested => s!"could not allocate {requested.toNat} bytes for input"

end Console
