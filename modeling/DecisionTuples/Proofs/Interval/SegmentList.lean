import DecisionTuples.Codec.Interval
import DecisionTuples.Proofs.Interval.Membership

/-!
# Plain lists of segments

A region has a first segment by its type.  Here a region is a plain list of segments, which
could have none, and its first segment is looked up by an index that could be out of range.
Every way to make a region is written for such lists, with the checks that keep empty lists
out: a relation that is no comparison is refused, and so is a list without segments, when
it is given or when it is read; an intersection in which nothing is left is none.

* `SegmentList.Made` are the lists that can be made by these ways, one after the other.
* `SegmentList.Made.ne_nil` says that none of them is empty.
* `SegmentList.made_iff_exists_region` says that they are just the regions, and the lemmas
  before it say that each way to make a list is the way to make a region, seen as lists.
-/

namespace DecisionTuples

/-- Segments in order, in any number. -/
abbrev SegmentList := List Segment

namespace SegmentList

/-! ## Making lists -/

/-- The list of a single segment. -/
def single (interval : Interval) (openness : Openness) : SegmentList := [⟨openness, interval⟩]

/-- The numbers that compare with `value` in the given way. -/
def solutions : Comparison → Number → SegmentList
  | .less, value => single (.below value) ⟨true, true⟩
  | .atMost, value => single (.below value) ⟨true, false⟩
  | .greater, value => single (.above value) ⟨true, true⟩
  | .atLeast, value => single (.above value) ⟨false, true⟩
  | .equal, value => single (.point value) .closed
  | .notEqual, value => single (.point value) .opened

/-- The list of a relation with one number, which only comparisons have. -/
def ofRelation : Relation → Number → Except RegionError SegmentList
  | .compares comparison, value => .ok (solutions comparison value)
  | relation, _ => .error (.notAComparison relation)

/-- Every number but one. -/
def excluding (value : Number) : SegmentList :=
  [⟨.opened, .below value⟩, ⟨.opened, .above value⟩]

/-- The given segments, unless there are none. -/
def ofSegments (segments : List Segment) : Except RegionError SegmentList :=
  if segments.isEmpty then .error .noSegment else .ok segments

/-- The segments that are read, unless there are none. -/
def decode? (json : Json) : Option SegmentList :=
  (json.asList? Segment.decode?).bind fun segments => (ofSegments segments).toOption

/-- The overlaps of each segment of one list with each of the other, unless there are
none. -/
def intersect? (a b : SegmentList) : Option SegmentList :=
  let found := a.flatMap fun s => b.filterMap s.intersect?
  if found.isEmpty then none else some found

/-- The segment at the first index; none means that the index is out of range. -/
def primary? (segments : SegmentList) : Option Segment := segments[0]?

/-- The lists that can be made: by one of the ways to make a list, or from two lists made
before by intersecting them. -/
inductive Made : SegmentList → Prop
  | single (interval : Interval) (openness : Openness) : Made (single interval openness)
  | ofRelation {relation : Relation} {value : Number} {segments : SegmentList}
      (h : ofRelation relation value = .ok segments) : Made segments
  | excluding (value : Number) : Made (excluding value)
  | ofSegments {given : List Segment} {segments : SegmentList}
      (h : ofSegments given = .ok segments) : Made segments
  | decode {json : Json} {segments : SegmentList} (h : decode? json = some segments) :
      Made segments
  | intersect {a b segments : SegmentList} (ha : Made a) (hb : Made b)
      (h : intersect? a b = some segments) : Made segments

/-! ## No list is empty -/

variable {segments : SegmentList}

theorem ofRelation_ne_nil {relation : Relation} {value : Number}
    (h : ofRelation relation value = .ok segments) : segments ≠ [] := by
  cases relation with
  | compares comparison =>
      cases h
      cases comparison
      all_goals exact List.cons_ne_nil _ _
  | holds value => cases h
  | within => cases h

theorem ofSegments_eq_ok_iff {given : List Segment} :
    ofSegments given = .ok segments ↔ given = segments ∧ segments ≠ [] := by
  cases given with
  | nil => simp [ofSegments]
  | cons first others =>
      simp only [ofSegments, List.isEmpty_cons, Bool.false_eq_true, if_false, Except.ok.injEq]
      exact ⟨fun h => ⟨h, h ▸ List.cons_ne_nil _ _⟩, And.left⟩

theorem decode?_ne_nil {json : Json} (h : decode? json = some segments) : segments ≠ [] := by
  obtain ⟨given, -, hgiven⟩ := Option.bind_eq_some_iff.mp h
  cases hlist : ofSegments given with
  | error e =>
      rw [hlist] at hgiven
      cases hgiven
  | ok found =>
      rw [hlist] at hgiven
      cases hgiven
      exact (ofSegments_eq_ok_iff.mp hlist).2

/-- A cross product in which nothing is left is no list. -/
theorem intersect?_ne_nil {a b : SegmentList} (h : intersect? a b = some segments) :
    segments ≠ [] := by
  unfold intersect? at h
  dsimp only at h
  split at h
  · cases h
  · next hfound =>
      cases h
      exact fun hnil => hfound (List.isEmpty_iff.mpr hnil)

/-- A list that was made is not empty, in whichever way it was made. -/
theorem Made.ne_nil (h : Made segments) : segments ≠ [] := by
  cases h with
  | single interval openness => exact List.cons_ne_nil _ _
  | ofRelation h => exact ofRelation_ne_nil h
  | excluding value => exact List.cons_ne_nil _ _
  | ofSegments h => exact (ofSegments_eq_ok_iff.mp h).2
  | decode h => exact decode?_ne_nil h
  | intersect _ _ h => exact intersect?_ne_nil h

/-- The index of the first segment is in range. -/
theorem Made.exists_primary (h : Made segments) : ∃ first, segments.primary? = some first := by
  obtain ⟨first, others, rfl⟩ := List.exists_cons_of_ne_nil h.ne_nil
  exact ⟨first, rfl⟩

/-! ## Lists and regions -/

theorem segments_solutions (comparison : Comparison) (value : Number) :
    (Region.solutions comparison value).segments = solutions comparison value := by
  cases comparison
  all_goals rfl

theorem ofRelation_eq (relation : Relation) (value : Number) :
    ofRelation relation value = (Region.ofRelation relation value).map Region.segments := by
  cases relation with
  | compares comparison => exact congrArg Except.ok (segments_solutions comparison value).symm
  | holds value => rfl
  | within => rfl

theorem segments_excluding (value : Number) : (Region.excluding value).segments = excluding value :=
  rfl

theorem ofSegments_eq (given : List Segment) :
    ofSegments given = (Region.ofSegments given).map Region.segments := by
  cases given
  all_goals rfl

theorem decode?_eq (json : Json) : decode? json = (Region.decode? json).map Region.segments := by
  unfold decode? Region.decode?
  cases json.asList? Segment.decode? with
  | none => rfl
  | some given =>
      rw [Option.bind_some, Option.bind_some, ofSegments_eq]
      cases given
      all_goals rfl

theorem intersect?_segments (a b : Region) :
    intersect? a.segments b.segments = (a.intersect? b).map Region.segments := by
  unfold intersect? Region.intersect?
  dsimp only
  cases a.segments.flatMap fun s => b.segments.filterMap s.intersect?
  all_goals rfl

theorem primary?_segments (region : Region) : primary? region.segments = some region.first := rfl

/-- The lists that can be made are the regions. -/
theorem made_iff_exists_region : Made segments ↔ ∃ region : Region, region.segments = segments := by
  constructor
  · intro h
    obtain ⟨first, others, rfl⟩ := List.exists_cons_of_ne_nil h.ne_nil
    exact ⟨⟨first, others⟩, rfl⟩
  · rintro ⟨region, rfl⟩
    exact .ofSegments (ofSegments_eq_ok_iff.mpr ⟨rfl, List.cons_ne_nil _ _⟩)

theorem made_segments (region : Region) : Made region.segments :=
  made_iff_exists_region.mpr ⟨region, rfl⟩

end SegmentList
end DecisionTuples
