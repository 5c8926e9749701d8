import DecisionTuples.Interval.Region
import DecisionTuples.Variable

/-!
# Why a feature cannot be compiled

Each cause is a constructor with the data it depends on.  `label` is the
published name of the cause and `message` its wording; an error about a region
keeps the name and the wording that it has by itself.
-/

namespace DecisionTuples

/-- A construct that can be written but has no tuples yet. -/
inductive Construct where
  | nestedFeature
  | elseIf
  | otherwise
  deriving DecidableEq

namespace Construct

/-- How messages name the construct. -/
def text : Construct → String
  | nestedFeature => "nested features"
  | elseIf => "else if"
  | otherwise => "else"

end Construct

/-- What a condition says about its variable. -/
inductive ConditionKind where
  | truth
  | membership
  deriving DecidableEq

namespace ConditionKind

/-- How messages name the kind. -/
def text : ConditionKind → String
  | truth => "bool"
  | membership => "interval"

end ConditionKind

/-- Why a feature cannot be compiled. -/
inductive CompileError where
  /-- The feature uses a construct that has no tuples yet. -/
  | unsupported (construct : Construct)
  /-- A condition compares in a way that has no region. -/
  | region (error : RegionError)
  /-- A condition does not fit the declared type of its variable. -/
  | typeMismatch (name : String) (declared : ValueType) (found : ConditionKind)
  /-- A condition is about a variable that is not declared. -/
  | undefinedVariable (name : String)
  /-- A variable is declared a second time. -/
  | duplicateVariable (name : String)
  deriving DecidableEq

namespace CompileError

/-- The published name of the cause. -/
def label : CompileError → String
  | unsupported _ => "UnsupportedConstruct"
  | region error => error.label
  | typeMismatch _ _ _ => "TypeMismatch"
  | undefinedVariable _ => "UndefinedVariable"
  | duplicateVariable _ => "DuplicateVariable"

/-- The wording of the error. -/
def message : CompileError → String
  | unsupported construct =>
    "Unsupported construct: " ++ construct.text ++ " is not yet supported"
  | region error => error.message
  | typeMismatch name declared found =>
    "Type mismatch for variable '" ++ name ++ "': declared " ++ declared.text ++
      ", condition is " ++ found.text
  | undefinedVariable name => "Undefined variable: " ++ name
  | duplicateVariable name => "Duplicate variable declaration: " ++ name

end CompileError
end DecisionTuples
