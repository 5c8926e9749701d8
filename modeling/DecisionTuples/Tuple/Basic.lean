import DecisionTuples.Tuple.Slot
import DecisionTuples.Variable

/-!
# Tuples and tuple sets

A tuple has one slot for each declared variable, in the order of declaration.
Two tuples are joined slot by slot; tuples of different widths never join.  A
tuple set is what compiling a feature gives: the variables, and one tuple for
each path that can hold.
-/

namespace DecisionTuples

/-- One slot for each variable. -/
abbrev Tuple := List Slot

namespace Tuple

/-- How many slots demand something. -/
def constrainedCount (tuple : Tuple) : Nat := tuple.countP fun slot => !slot.isMissing

/-- The two tuples can hold together. -/
def meets : Tuple → Tuple → Bool
  | [], [] => true
  | a :: as, b :: bs => a.meets b && meets as bs
  | _, _ => false

/-- The tuple that demands what both tuples demand, or nothing if they cannot
hold together. -/
def intersect? : Tuple → Tuple → Option Tuple
  | [], [] => some []
  | a :: as, b :: bs => do
    let slot ← a.intersect? b
    let rest ← intersect? as bs
    return slot :: rest
  | _, _ => none

/-- The displayed form. -/
def text (tuple : Tuple) : String := "(" ++ ", ".intercalate (tuple.map Slot.text) ++ ")"

end Tuple

/-- Declared variables and the tuples over them. -/
structure TupleSet where
  declarations : List Variable
  tuples : List Tuple

namespace TupleSet

/-- The slots of the first variable with the given name, in tuple order, if there
is such a variable.  A tuple too short to have the slot is left out. -/
def column? (set : TupleSet) (name : String) : Option (List Slot) :=
  (set.declarations.findIdx? fun candidate => candidate.name == name).map fun index =>
    set.tuples.filterMap fun tuple => tuple[index]?

end TupleSet
end DecisionTuples
