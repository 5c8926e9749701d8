import DecisionTuples.CompileError
import DecisionTuples.Feature.Condition

/-!
# Requirements

A requirement is a condition in canonical form: the variable is on the left, a
truth value is the one the variable must have, and a comparison has become the
region of its solutions together with the relation it came from.

Not every relation with a number has a region, so that bringing a condition into
canonical form (`Condition.lower`) can fail as far as its type goes.  It never does:
the relation of a written comparison has a region, and every condition has the
canonical form `Condition.requirement` (`Condition.lower_eq`).
-/

namespace DecisionTuples

/-- What a path requires of one variable. -/
inductive Requirement where
  /-- The variable has this truth value. -/
  | truth (name : String) (value : Bool) (relation : Relation)
  /-- The variable lies in this region. -/
  | membership (name : String) (relation : Relation) (region : Region)
  deriving DecidableEq

namespace Requirement

/-- The variable that the requirement is about. -/
def name : Requirement → String
  | truth name _ _ => name
  | membership name _ _ => name

/-- The relation that the requirement came from. -/
def relation : Requirement → Relation
  | truth _ _ relation => relation
  | membership _ relation _ => relation

/-- The displayed form. -/
def text : Requirement → String
  | truth name value _ => name ++ " == " ++ toString value
  | membership name _ region => name ++ " in " ++ region.text

end Requirement

namespace Condition

/-- The comparison as it reads with the variable on the left. -/
def facingRight : Side → Comparison → Comparison
  | .left, written => written.converse
  | .right, written => written

/-- The condition in canonical form, if the relation with its number has a region. -/
def lower : Condition → Except CompileError Requirement
  | truth name equality value =>
    .ok (.truth name (equality.resolve value) (.holds (equality.resolve value)))
  | comparison name side constant written => do
    let relation : Relation := .compares (facingRight side written)
    let region ← (Region.ofRelation relation constant).mapError .region
    return .membership name relation region
  | membership name interval openness =>
    .ok (.membership name .within (.single interval openness))

/-- What the condition requires. -/
def requirement : Condition → Requirement
  | truth name equality value =>
    .truth name (equality.resolve value) (.holds (equality.resolve value))
  | comparison name side constant written =>
    .membership name (.compares (facingRight side written))
      (.solutions (facingRight side written) constant)
  | membership name interval openness => .membership name .within (.single interval openness)

/-- No written condition is refused. -/
@[simp] theorem lower_eq (condition : Condition) : condition.lower = .ok condition.requirement := by
  cases condition with
  | truth name equality value => rfl
  | comparison name side constant written => rfl
  | membership name interval openness => rfl

theorem mapM_lower (conditions : List Condition) :
    conditions.mapM lower = .ok (conditions.map requirement) := by
  induction conditions with
  | nil => rfl
  | cons condition rest ih =>
      rw [List.mapM_cons, lower_eq, ih]
      rfl

end Condition
end DecisionTuples
