import DecisionTuples.Number.Text

/-!
# Segments

A segment is an interval of the number line together with the openness of its
two ends.  Bounds are kept as they are given: they may be infinite, they may
stand in the wrong order, and they may even be no number.  A segment that no
number can satisfy is *empty*; intersecting two segments gives none instead of
an empty one.
-/

namespace DecisionTuples

/-- Two bounds, in no required order. -/
structure Interval where
  lo : Number
  hi : Number
  deriving DecidableEq

namespace Interval

/-- Both bounds at one value. -/
def point (value : Number) : Interval := ⟨value, value⟩

/-- All that is below a value. -/
def below (hi : Number) : Interval := ⟨.negativeInfinity, hi⟩

/-- All that is above a value. -/
def above (lo : Number) : Interval := ⟨lo, .infinity⟩

/-- The whole line. -/
def whole : Interval := ⟨.negativeInfinity, .infinity⟩

/-- The bounds are equal values. -/
def isPoint (interval : Interval) : Bool := interval.lo == interval.hi

instance : BEq Interval := ⟨fun a b => a.lo == b.lo && a.hi == b.hi⟩

end Interval

/-- Which ends of an interval are left out. -/
structure Openness where
  lo : Bool
  hi : Bool
  deriving DecidableEq

namespace Openness

/-- Both ends belong to the interval. -/
def closed : Openness := ⟨false, false⟩

/-- Neither end belongs to the interval. -/
def opened : Openness := ⟨true, true⟩

end Openness

/-- An interval and the openness of its ends. -/
structure Segment where
  openness : Openness
  interval : Interval
  deriving DecidableEq

namespace Segment

instance : BEq Segment :=
  ⟨fun a b => decide (a.openness = b.openness) && a.interval == b.interval⟩

/-- No number satisfies the segment: a bound is no number, the bounds are in the
wrong order, or they meet in a point that is left out. -/
def IsEmpty (segment : Segment) : Prop :=
  segment.interval.lo.isNaN ∨ segment.interval.hi.isNaN ∨
    segment.interval.hi < segment.interval.lo ∨
    (segment.interval.isPoint ∧ (segment.openness.lo ∨ segment.openness.hi))

instance (segment : Segment) : Decidable segment.IsEmpty :=
  inferInstanceAs (Decidable (_ ∨ _ ∨ _ ∨ _))

/-- A number lies past an end: strictly if the end is left out. -/
def Past (leftOut : Bool) (a b : Number) : Prop :=
  if leftOut then a < b else a ≤ b

instance (leftOut : Bool) (a b : Number) : Decidable (Past leftOut a b) := by
  unfold Past
  split <;> infer_instance

/-- The number lies in the segment. -/
def Contains (segment : Segment) (value : Number) : Prop :=
  Past segment.openness.lo segment.interval.lo value ∧
    Past segment.openness.hi value segment.interval.hi

instance (segment : Segment) (value : Number) : Decidable (segment.Contains value) :=
  inferInstanceAs (Decidable (_ ∧ _))

/-- The tighter of two lower ends, each a bound with its openness.  Of two ends at
the same value the one that leaves it out is tighter. -/
def tighterLo (a b : Number × Bool) : Number × Bool :=
  if b.1 < a.1 then a else if a.1 < b.1 then b else (a.1, a.2 || b.2)

/-- The tighter of two upper ends. -/
def tighterHi (a b : Number × Bool) : Number × Bool :=
  if a.1 < b.1 then a else if b.1 < a.1 then b else (a.1, a.2 || b.2)

/-- What two segments have in common, whether or not it is empty. -/
def overlap (a b : Segment) : Segment :=
  let lo := tighterLo (a.interval.lo, a.openness.lo) (b.interval.lo, b.openness.lo)
  let hi := tighterHi (a.interval.hi, a.openness.hi) (b.interval.hi, b.openness.hi)
  ⟨⟨lo.2, hi.2⟩, ⟨lo.1, hi.1⟩⟩

/-- What two segments have in common, or nothing if that is empty. -/
def intersect? (a b : Segment) : Option Segment :=
  if (a.overlap b).IsEmpty then none else some (a.overlap b)

/-- The displayed form: a bracket for an end that belongs to the segment, a
parenthesis for one that does not. -/
def text (segment : Segment) : String :=
  (if segment.openness.lo then "(" else "[") ++ segment.interval.lo.boundText ++ ", " ++
    segment.interval.hi.boundText ++ (if segment.openness.hi then ")" else "]")

end Segment
end DecisionTuples
