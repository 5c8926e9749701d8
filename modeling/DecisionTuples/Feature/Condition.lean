import DecisionTuples.Comparison
import DecisionTuples.Interval.Segment

/-!
# Conditions as they are written

A condition is kept in the form in which it was written: which operand stood on
the left, which operator was used, which brackets an interval had.  What the
condition *requires* is the subject of `DecisionTuples.Path.Requirement`.
-/

namespace DecisionTuples

/-- The side of a comparison on which its number is written. -/
inductive Side where
  | left
  | right
  deriving DecidableEq

namespace Side

/-- The published name of the side. -/
def name : Side → String
  | left => "LeftHandSide"
  | right => "RightHandSide"

/-- The side with the given published name. -/
def ofName? (text : String) : Option Side := [left, right].find? fun side => side.name == text

@[simp] theorem ofName?_name (side : Side) : ofName? side.name = some side := by
  cases side <;> decide

end Side

/-- A condition on one variable. -/
inductive Condition where
  /-- The variable is compared with a truth value. -/
  | truth (name : String) (equality : Equality) (value : Bool)
  /-- The variable is compared with a number, written on the given side. -/
  | comparison (name : String) (side : Side) (constant : Number) (comparison : Comparison)
  /-- The variable is said to lie in an interval. -/
  | membership (name : String) (interval : Interval) (openness : Openness)
  deriving DecidableEq

namespace Condition

/-- The variable that the condition is about. -/
def name : Condition → String
  | truth name _ _ => name
  | comparison name _ _ _ => name
  | membership name _ _ => name

end Condition
end DecisionTuples
