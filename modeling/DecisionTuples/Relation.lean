import DecisionTuples.Comparison

/-!
# Relations

Every canonical condition and every constraint of a tuple carries the relation
it came from, read with the variable on the left.  The relation tells a reader
of the tuples which shape of constraint to expect; the values themselves are
given by the constraint.
-/

namespace DecisionTuples

/-- The relation a constraint came from. -/
inductive Relation where
  /-- The variable compares in this way with one number. -/
  | compares (comparison : Comparison)
  /-- The variable has this truth value. -/
  | holds (value : Bool)
  /-- The variable lies in an interval that was written out, or in what is left
  of several different relations together. -/
  | within
  deriving DecidableEq

namespace Relation

/-- The published name of the relation. -/
def name : Relation → String
  | compares .less => "LessThan"
  | compares .atMost => "LessThanOrEqualTo"
  | compares .greater => "GreaterThan"
  | compares .atLeast => "GreaterThanOrEqualTo"
  | compares .equal => "EqualTo"
  | compares .notEqual => "NotEqualTo"
  | holds true => "BoolTrue"
  | holds false => "BoolFalse"
  | within => "Interval"

/-- Every relation. -/
def all : List Relation :=
  Comparison.all.map compares ++ [holds true, holds false, within]

/-- The relation with the given published name. -/
def ofName? (text : String) : Option Relation :=
  all.find? fun relation => relation.name == text

/-- The relation compares with one number. -/
def isComparison : Relation → Bool
  | compares _ => true
  | _ => false

/-- The relation fixes a truth value. -/
def isTruth : Relation → Bool
  | holds _ => true
  | _ => false

@[simp] theorem ofName?_name (relation : Relation) : ofName? relation.name = some relation := by
  cases relation with
  | compares comparison => cases comparison <;> decide
  | holds value => cases value <;> decide
  | within => decide

end Relation
end DecisionTuples
