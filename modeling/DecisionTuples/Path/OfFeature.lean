import DecisionTuples.CompileError
import DecisionTuples.Feature.Basic
import DecisionTuples.Path.Basic

/-!
# From decisions to paths

A decision has one path for each of its leaves.  A decision without a body, or
with an empty one, is a leaf and has a single path, its own requirements; any
other has the paths of the decisions in its body, each continued at the front
by its own requirements.  The decisions of a feature are independent of one
another, so the paths of a feature are the paths of its decisions one after the
other.  The conditions of a decision are brought into canonical form before its
body is looked at; this never fails (`Decision.paths_mk`).

Alternatives and nested features have no paths yet and are refused.  Of several
such constructs the first in reading order is named; within one decision an
alternative with conditions comes before the closing one, and nested features
are named before anything else.
-/

namespace DecisionTuples

/-- The alternative because of which a decision is refused, if it has any. -/
def firstAlternative? : List ElseIf → Option (List Decision) → Option Construct
  | _ :: _, _ => some .elseIf
  | [], some _ => some .otherwise
  | [], none => none

mutual

/-- The paths of a decision, one for each leaf. -/
def Decision.paths : Decision → Except CompileError (List Path)
  | ⟨conditions, body, elseIfs, otherwise⟩ =>
    match firstAlternative? elseIfs otherwise with
    | some construct => .error (.unsupported construct)
    | none => do
      let own ← conditions.mapM Condition.lower
      let below ← blockPaths body
      return below.map fun path => own ++ path

/-- The ways to go on inside the body of a decision.  At a leaf there is one way,
and it adds nothing. -/
def blockPaths : Option (List Decision) → Except CompileError (List Path)
  | none => .ok [[]]
  | some [] => .ok [[]]
  | some (decision :: rest) => do
    let first ← decision.paths
    let others ← forestPaths rest
    return first ++ others

/-- The paths of several decisions, one after the other. -/
def forestPaths : List Decision → Except CompileError (List Path)
  | [] => .ok []
  | decision :: rest => do
    let first ← decision.paths
    let others ← forestPaths rest
    return first ++ others

end

/-- Lowering its own conditions never fails, so a decision is refused for its alternatives or
for something in its body. -/
theorem Decision.paths_mk (conditions : List Condition) (body : Option (List Decision))
    (elseIfs : List ElseIf) (otherwise : Option (List Decision)) :
    Decision.paths ⟨conditions, body, elseIfs, otherwise⟩ =
      match firstAlternative? elseIfs otherwise with
      | some construct => .error (.unsupported construct)
      | none => do
        let below ← blockPaths body
        return below.map fun path => conditions.map Condition.requirement ++ path := by
  rw [Decision.paths, Condition.mapM_lower]
  rfl

/-- The variables and paths of a feature. -/
def Feature.pathTable (feature : Feature) : Except CompileError PathTable :=
  match feature.features with
  | _ :: _ => .error (.unsupported .nestedFeature)
  | [] => do
    let paths ← forestPaths feature.decisions
    return ⟨feature.declarations, paths⟩

end DecisionTuples
