import DecisionTuples.Feature.Basic

/-!
# The names a feature refers to

The names that conditions mention, in the order of reading: the conditions of a
decision, then its body, then each alternative with its own conditions and
body, and last the closing alternative.  Nested features are not looked into;
they speak about declarations of their own.
-/

namespace DecisionTuples

mutual

/-- The names that a decision refers to. -/
def Decision.references : Decision → List String
  | ⟨conditions, body, elseIfs, otherwise⟩ =>
    conditions.map Condition.name ++ blockReferences body ++ elseIfReferences elseIfs ++
      blockReferences otherwise

/-- The names referred to between braces, if there are any. -/
def blockReferences : Option (List Decision) → List String
  | none => []
  | some decisions => decisionReferences decisions

/-- The names that several decisions refer to. -/
def decisionReferences : List Decision → List String
  | [] => []
  | decision :: rest => decision.references ++ decisionReferences rest

/-- The names that several alternatives refer to. -/
def elseIfReferences : List ElseIf → List String
  | [] => []
  | ⟨conditions, body⟩ :: rest =>
    conditions.map Condition.name ++ blockReferences body ++ elseIfReferences rest

end

/-- The names that the decisions of a feature refer to. -/
def Feature.references (feature : Feature) : List String := decisionReferences feature.decisions

end DecisionTuples
