import DecisionTuples.Proofs.Interval.Membership
import DecisionTuples.Proofs.Path.Enumeration

/-!
# What the conditions of a feature say

A condition is read as it was written: a comparison with its operands where they
stand, an interval by its brackets.  It is a statement about one value, which is
either a truth value or a point of the extended line; no condition holds of a
value of the other kind.

A path of a feature is satisfied by a valuation if every condition met on it holds
of the value of its variable.  Conditions about names that are not declared say
nothing.
-/

namespace DecisionTuples

/-- What a variable can be. -/
inductive Value where
  | truth (value : Bool)
  | number (value : EReal)

namespace Value

/-- A truth value or a finite number. -/
def IsFinite : Value → Prop
  | truth _ => True
  | number x => x ≠ ⊥ ∧ x ≠ ⊤

theorem isFinite_or_infinite (value : Value) :
    value.IsFinite ∨ ∃ x, (x = ⊥ ∨ x = ⊤) ∧ value = number x := by
  cases value with
  | truth b => exact .inl trivial
  | number x =>
      by_cases hx : x = ⊥ ∨ x = ⊤
      · exact .inr ⟨x, hx, rfl⟩
      · exact .inl (not_or.mp hx)

end Value

/-- A value for every name. -/
abbrev Valuation := String → Value

namespace Comparison

/-- The comparison holds of its left and right operand. -/
def Relates : Comparison → EReal → EReal → Prop
  | less, x, y => x < y
  | atMost, x, y => x ≤ y
  | greater, x, y => y < x
  | atLeast, x, y => y ≤ x
  | equal, x, y => x = y
  | notEqual, x, y => x ≠ y

@[simp] theorem relates_converse (comparison : Comparison) (x y : EReal) :
    comparison.converse.Relates x y ↔ comparison.Relates y x := by
  cases comparison <;> simp [converse, Relates, eq_comm]

end Comparison

namespace Condition

/-- The condition holds of a value of its variable. -/
def Holds : Condition → Value → Prop
  | truth _ .equal value, .truth b => b = value
  | truth _ .notEqual value, .truth b => b ≠ value
  | comparison _ .left constant written, .number x =>
    ∃ c, constant.extended? = some c ∧ written.Relates c x
  | comparison _ .right constant written, .number x =>
    ∃ c, constant.extended? = some c ∧ written.Relates x c
  | membership _ interval openness, .number x => Segment.Admits ⟨openness, interval⟩ x
  | _, _ => False

/-- No constant and no bound of the condition is `nan`. -/
def Ordered : Condition → Prop
  | truth _ _ _ => True
  | comparison _ _ constant _ => constant ≠ .nan
  | membership _ interval _ => interval.lo ≠ .nan ∧ interval.hi ≠ .nan

/-- A comparison says the same with the variable on the left. -/
theorem holds_comparison_iff {name : String} {side : Side} {constant : Number}
    {written : Comparison} {c x : EReal} (h : constant.extended? = some c) :
    (comparison name side constant written).Holds (.number x) ↔
      (facingRight side written).Relates x c := by
  cases side <;> simp [Holds, facingRight, h]

@[simp] theorem requirement_name (condition : Condition) :
    condition.requirement.name = condition.name := by
  cases condition <;> rfl

end Condition

/-- The conditions about the variable with the given name, in path order. -/
def conditionsOn (conditions : List Condition) (name : String) : List Condition :=
  conditions.filter fun condition => condition.name == name

@[simp] theorem mem_conditionsOn {conditions : List Condition} {name : String}
    {condition : Condition} :
    condition ∈ conditionsOn conditions name ↔ condition ∈ conditions ∧ condition.name = name := by
  simp [conditionsOn]

/-- The requirements on a name come from the conditions on it. -/
theorem Path.on_map_requirement (conditions : List Condition) (name : String) :
    Path.on (conditions.map Condition.requirement) name =
      (conditionsOn conditions name).map Condition.requirement := by
  rw [Path.on, conditionsOn, List.filter_map]
  congr 1
  exact List.filter_congr fun condition _ => by simp

/-- The valuation satisfies every condition that is about a declared variable. -/
def Satisfies (valuation : Valuation) (declarations : List Variable)
    (conditions : List Condition) : Prop :=
  ∀ condition ∈ conditions, condition.name ∈ declarations.map Variable.name →
    condition.Holds (valuation condition.name)

/-- Satisfying the conditions is satisfying those on each declared variable. -/
theorem satisfies_iff {valuation : Valuation} {declarations : List Variable}
    {conditions : List Condition} :
    Satisfies valuation declarations conditions ↔ ∀ declared ∈ declarations,
      ∀ condition ∈ conditionsOn conditions declared.name,
        condition.Holds (valuation declared.name) := by
  constructor
  · intro h declared hdeclared condition hcondition
    obtain ⟨hmem, hname⟩ := mem_conditionsOn.mp hcondition
    have hholds := h condition hmem
    rw [hname] at hholds
    exact hholds (List.mem_map_of_mem hdeclared)
  · intro h condition hmem hname
    obtain ⟨declared, hdeclared, hdeclaredName⟩ := List.mem_map.mp hname
    rw [← hdeclaredName]
    exact h declared hdeclared condition (mem_conditionsOn.mpr ⟨hmem, hdeclaredName.symm⟩)

namespace Feature

/-- The conditions met on each way from a decision of the feature down to a leaf. -/
def writtenPaths (feature : Feature) : List (List Condition) :=
  (forestTrails feature.decisions).map fun trail => trail.flatMap Decision.conditions

/-- Where a feature has paths at all, they are the requirements of its written ones. -/
theorem eq_of_pathTable {feature : Feature} {table : PathTable}
    (h : feature.pathTable = .ok table) :
    table = ⟨feature.declarations,
      feature.writtenPaths.map fun conditions => conditions.map Condition.requirement⟩ := by
  rw [feature.pathTable_eq] at h
  split at h
  · cases h
  · split at h
    · cases h
    · cases h
      have hpath : Path.ofTrail = fun trail =>
          (trail.flatMap Decision.conditions).map Condition.requirement :=
        funext fun trail => List.map_flatMap.symm
      rw [writtenPaths, List.map_map, hpath]
      rfl

end Feature
end DecisionTuples
