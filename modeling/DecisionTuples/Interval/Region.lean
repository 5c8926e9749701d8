import DecisionTuples.Interval.Segment
import DecisionTuples.Relation

/-!
# Regions

A region is a union of one or more segments, in a fixed order.  The first
segment is a field of its own, so that every region has one by construction.
Segments may overlap, repeat or be empty; nothing is merged or sorted.

`solutions` is the region of one comparison with one number.  An inequality
`x != v` is kept as the open point `(v, v)`, which stands for *every number
but* `v` wherever its relation is known; `excluding` is that set written out.
-/

namespace DecisionTuples

/-- A union of segments, the first of which always exists. -/
structure Region where
  first : Segment
  others : List Segment
  deriving DecidableEq

/-- Why a region cannot be made. -/
inductive RegionError where
  /-- The relation does not compare with one number. -/
  | notAComparison (relation : Relation)
  /-- There is no segment to begin with. -/
  | noSegment
  deriving DecidableEq

namespace RegionError

/-- The published name of the reason. -/
def label : RegionError → String
  | notAComparison _ => "InvalidExpression"
  | noSegment => "InvalidValue"

/-- The wording of the error. -/
def message : RegionError → String
  | notAComparison relation => "Cannot create a unary interval from expression " ++ relation.name
  | noSegment => "Invalid value: a multi-interval needs at least one segment"

end RegionError

namespace Region

/-- All segments in order. -/
def segments (region : Region) : List Segment := region.first :: region.others

/-- The region of the given segments, if there is one at all. -/
def ofSegments? : List Segment → Option Region
  | [] => none
  | first :: others => some ⟨first, others⟩

@[simp] theorem ofSegments?_segments (region : Region) :
    ofSegments? region.segments = some region := rfl

/-- The region of the given segments, or the reason why there is none. -/
def ofSegments (segments : List Segment) : Except RegionError Region :=
  match ofSegments? segments with
  | some region => .ok region
  | none => .error .noSegment

instance : BEq Region := ⟨fun a b => a.segments == b.segments⟩

/-- The region of a single segment. -/
def single (interval : Interval) (openness : Openness) : Region :=
  ⟨⟨openness, interval⟩, []⟩

@[simp] theorem segments_single (interval : Interval) (openness : Openness) :
    (single interval openness).segments = [⟨openness, interval⟩] := rfl

/-- The numbers that compare with `value` in the given way. -/
def solutions : Comparison → Number → Region
  | .less, value => single (.below value) ⟨true, true⟩
  | .atMost, value => single (.below value) ⟨true, false⟩
  | .greater, value => single (.above value) ⟨true, true⟩
  | .atLeast, value => single (.above value) ⟨false, true⟩
  | .equal, value => single (.point value) .closed
  | .notEqual, value => single (.point value) .opened

/-- The region of a relation with one number, which only comparisons have. -/
def ofRelation : Relation → Number → Except RegionError Region
  | .compares comparison, value => .ok (solutions comparison value)
  | relation, _ => .error (.notAComparison relation)

/-- Every number but one: the two open half-lines beside it. -/
def excluding (value : Number) : Region :=
  ⟨⟨.opened, .below value⟩, [⟨.opened, .above value⟩]⟩

/-- Every segment is empty. -/
def IsEmpty (region : Region) : Prop := ∀ segment ∈ region.segments, segment.IsEmpty

instance (region : Region) : Decidable region.IsEmpty :=
  inferInstanceAs (Decidable (∀ segment ∈ region.segments, segment.IsEmpty))

/-- Some segment contains the number. -/
def Contains (region : Region) (value : Number) : Prop :=
  ∃ segment ∈ region.segments, segment.Contains value

instance (region : Region) (value : Number) : Decidable (region.Contains value) :=
  inferInstanceAs (Decidable (∃ segment ∈ region.segments, segment.Contains value))

/-- The overlaps of each segment of the first region with each of the second, the
first region leading the order, or nothing if no two overlap. -/
def intersect? (a b : Region) : Option Region :=
  ofSegments? (a.segments.flatMap fun s => b.segments.filterMap s.intersect?)

/-- The two regions overlap. -/
def meets (a b : Region) : Bool := (a.intersect? b).isSome

/-- The displayed form: the segments with a space between two. -/
def text (region : Region) : String :=
  " ".intercalate (region.segments.map Segment.text)

end Region
end DecisionTuples
