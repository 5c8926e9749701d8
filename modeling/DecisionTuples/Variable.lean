import DecisionTuples.Number.Text

/-!
# Declared variables

A variable is declared as a truth value or as a number.  A number carries the
smallest meaningful step between two of its values; nothing here computes with
that step, it is handed on with the tuples.
-/

namespace DecisionTuples

/-- The declared type of a variable. -/
inductive ValueType where
  | bool
  | number (precision : Number)
  deriving DecidableEq

namespace ValueType

/-- The type of whole numbers. -/
def int : ValueType := number (.ofRatio false 1 1)

/-- The type of numbers with the usual two decimal places. -/
def num : ValueType := number (.ofRatio false 1 100)

/-- The step of a number type. -/
def precision? : ValueType → Option Number
  | bool => none
  | number precision => some precision

def isBool : ValueType → Bool
  | bool => true
  | number _ => false

def isNumber : ValueType → Bool
  | bool => false
  | number _ => true

/-- The displayed form of the type. -/
def text : ValueType → String
  | bool => "bool"
  | number precision => "num(" ++ precision.plainText ++ ")"

end ValueType

/-- A variable with its declared type. -/
structure Variable where
  name : String
  type : ValueType
  deriving DecidableEq

namespace Variable

/-- The displayed form of the declaration. -/
def text (declared : Variable) : String := declared.name ++ ": " ++ declared.type.text

/-- The first variable with the given name. -/
def find? (declarations : List Variable) (name : String) : Option Variable :=
  declarations.find? fun candidate => candidate.name == name

end Variable
end DecisionTuples
