import DecisionTuples.Path.Requirement
import DecisionTuples.Variable

/-!
# Paths

A path is the list of requirements met on the way from a decision down to one
of its leaves; it holds when all of them hold.  One variable may occur several
times on a path.  A path table is what a feature comes down to: its variables
and the paths of its decisions, nothing else.
-/

namespace DecisionTuples

/-- The requirements of one way through a decision, from the root to a leaf. -/
abbrev Path := List Requirement

namespace Path

/-- The requirements on one variable, in path order. -/
def on (path : Path) (name : String) : Path :=
  path.filter fun requirement => requirement.name == name

/-- The displayed form. -/
def text (path : Path) : String := " && ".intercalate (path.map Requirement.text)

end Path

/-- The variables of a feature and all its paths. -/
structure PathTable where
  declarations : List Variable
  paths : List Path

end DecisionTuples
