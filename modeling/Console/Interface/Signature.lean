/-!
# Signatures

The functions a C program may call are described by signatures, from which
their C declarations follow.
-/
namespace Console.Interface

/-- The types of values that cross the interface. -/
inductive ValueType where
  /-- The address of a text that stays with its owner. -/
  | text
  /-- The address of a text that changes its owner. -/
  | ownedText
  | int
  /-- A number of bytes. -/
  | size
deriving DecidableEq

def ValueType.cName : ValueType → String
  | .text => "const char*"
  | .ownedText => "char*"
  | .int => "int"
  | .size => "size_t"

structure Parameter where
  name : String
  type : ValueType
deriving DecidableEq

structure Signature where
  name : String
  parameters : List Parameter
  /-- No type for a function that returns nothing. -/
  returns : Option ValueType
deriving DecidableEq

def Parameter.declaration (parameter : Parameter) : String :=
  parameter.type.cName ++ " " ++ parameter.name

def separated : List Parameter → String
  | [] => ""
  | [parameter] => parameter.declaration
  | parameter :: rest => parameter.declaration ++ ", " ++ separated rest

namespace Signature

def returnName (signature : Signature) : String :=
  match signature.returns with
  | none => "void"
  | some type => type.cName

def parameterList (signature : Signature) : String :=
  match signature.parameters with
  | [] => "void"
  | parameters => separated parameters

def declaration (signature : Signature) : String :=
  signature.returnName ++ " " ++ signature.name ++ "(" ++ signature.parameterList ++ ");"

end Signature
end Console.Interface
