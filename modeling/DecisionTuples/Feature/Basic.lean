import DecisionTuples.Feature.Condition
import DecisionTuples.Variable

/-!
# Features

A feature declares variables and holds decisions, each a tree of nested
conditions.  The tree is the one that was written: a decision without braces is
told apart from one with empty braces, and the alternatives of a decision are
kept beside its body.  Features may be nested; the three kinds of statement are
kept in three lists, each in source order.
-/

namespace DecisionTuples

mutual

/-- A decision: conditions that hold together, the decisions made below them,
and the alternatives. -/
structure Decision where
  conditions : List Condition
  /-- The decisions between the braces, if there are braces. -/
  body : Option (List Decision)
  elseIfs : List ElseIf
  /-- The decisions of the closing alternative, if there is one. -/
  otherwise : Option (List Decision)

/-- An alternative with conditions of its own. -/
structure ElseIf where
  conditions : List Condition
  body : Option (List Decision)

end

/-- A feature with its declarations, decisions and nested features. -/
structure Feature where
  declarations : List Variable
  decisions : List Decision
  features : List Feature

namespace Decision

/-- A decision without body and alternatives. -/
def leaf (conditions : List Condition) : Decision := ⟨conditions, none, [], none⟩

/-- No decision is made below this one. -/
def isLeaf (decision : Decision) : Bool :=
  match decision.body with
  | none => true
  | some body => body.isEmpty

/-- The decision has an alternative. -/
def hasAlternatives (decision : Decision) : Bool :=
  !decision.elseIfs.isEmpty || decision.otherwise.isSome

end Decision

namespace Feature

/-- The feature that says nothing. -/
def empty : Feature := ⟨[], [], []⟩

/-- The feature with one more declaration. -/
def addVariable (feature : Feature) (added : Variable) : Feature :=
  { feature with declarations := feature.declarations ++ [added] }

/-- The feature with one more decision. -/
def addDecision (feature : Feature) (decision : Decision) : Feature :=
  { feature with decisions := feature.decisions ++ [decision] }

/-- The feature with one more nested feature. -/
def addFeature (feature nested : Feature) : Feature :=
  { feature with features := feature.features ++ [nested] }

/-- The first declaration of the given name. -/
def find? (feature : Feature) (name : String) : Option Variable :=
  Variable.find? feature.declarations name

end Feature
end DecisionTuples
