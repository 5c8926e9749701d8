import DecisionTuples.Codec.Tuple
import DecisionTuples.Proofs.Tuple.Conjunction

/-!
# Meeting from either side

Whether two tuples meet should not depend on which of them is asked.  It does where a
bound is `nan`, which the decoder of bounds lets in.  Of two bounds that are in no order
the overlap takes the first one, so a `nan` on the left makes every overlap empty, and a
`nan` on the right is passed over as if that end were not there at all.

* `Segment.filledFrom` is a segment with the bounds of another in place of those that are
  `nan`.  That is how a segment on the right is read (`Segment.isSome_intersect?_iff`),
  while a segment on the left is read as it is.
* `Region.meets_iff` sorts the reasons for which two regions meet: a common point, or a
  segment of the second with a `nan` that the first *strays* into.
* `meets_comm_iff` says exactly when the two answers differ: there is no common point,
  and one of the two strays into the other, but not the other into it.

Without `nan` the answers agree.
-/

namespace DecisionTuples
namespace Segment

/-- The segment with the bounds of the other one in place of its own that are `nan`. -/
def filledFrom (t s : Segment) : Segment :=
  ⟨t.openness, ⟨if t.interval.lo = .nan then s.interval.lo else t.interval.lo,
    if t.interval.hi = .nan then s.interval.hi else t.interval.hi⟩⟩

variable {s t : Segment}

theorem filledFrom_eq_self (h : t.Ordered) : t.filledFrom s = t := by
  rw [filledFrom, if_neg h.1, if_neg h.2]

theorem Ordered.filledFrom (h : s.Ordered) (t : Segment) : (t.filledFrom s).Ordered := by
  unfold Segment.filledFrom Ordered
  constructor
  · dsimp only
    split
    · exact h.1
    · assumption
  · dsimp only
    split
    · exact h.2
    · assumption

/-- Of two lower ends the first is taken if the second is `nan`. -/
theorem tighterLo_nan (a : Number × Bool) (leftOut : Bool) :
    tighterLo a (.nan, leftOut) = tighterLo a (a.1, leftOut) := by
  unfold tighterLo
  rw [if_neg (Number.not_nan_lt a.1), if_neg (Number.not_lt_nan a.1),
    if_neg (Number.lt_irrefl a.1), if_neg (Number.lt_irrefl a.1)]

theorem tighterHi_nan (a : Number × Bool) (leftOut : Bool) :
    tighterHi a (.nan, leftOut) = tighterHi a (a.1, leftOut) := by
  unfold tighterHi
  rw [if_neg (Number.not_lt_nan a.1), if_neg (Number.not_nan_lt a.1),
    if_neg (Number.lt_irrefl a.1), if_neg (Number.lt_irrefl a.1)]

/-- A `nan` on the right is passed over. -/
theorem overlap_filledFrom (s t : Segment) : s.overlap (t.filledFrom s) = s.overlap t := by
  obtain ⟨openness, ⟨lo, hi⟩⟩ := t
  have hlo : tighterLo (s.interval.lo, s.openness.lo)
      (if lo = .nan then s.interval.lo else lo, openness.lo) =
        tighterLo (s.interval.lo, s.openness.lo) (lo, openness.lo) := by
    split
    · next h => rw [h, tighterLo_nan]
    · rfl
  have hhi : tighterHi (s.interval.hi, s.openness.hi)
      (if hi = .nan then s.interval.hi else hi, openness.hi) =
        tighterHi (s.interval.hi, s.openness.hi) (hi, openness.hi) := by
    split
    · next h => rw [h, tighterHi_nan]
    · rfl
  rw [overlap, overlap, filledFrom]
  dsimp only
  rw [hlo, hhi]

/-- A `nan` on the left is kept, so that the overlap is empty. -/
theorem intersect?_eq_none_of_not_ordered (h : ¬ s.Ordered) (t : Segment) :
    s.intersect? t = none := by
  have hempty : (s.overlap t).IsEmpty := by
    obtain ⟨openness, ⟨lo, hi⟩⟩ := s
    by_cases hlo : lo = .nan
    · subst hlo
      left
      simp [overlap, tighterLo, Number.not_nan_lt, Number.not_lt_nan, Number.isNaN]
    · have hhi : hi = .nan := by
        by_contra hhi
        exact h ⟨hlo, hhi⟩
      subst hhi
      right
      left
      simp [overlap, tighterHi, Number.not_nan_lt, Number.not_lt_nan, Number.isNaN]
  rw [intersect?, if_pos hempty]

/-- Two segments overlap if a point of the first lies in the second with its `nan` bounds
filled from the first. -/
theorem isSome_intersect?_iff (s t : Segment) :
    (s.intersect? t).isSome ↔ ∃ x, s.Admits x ∧ (t.filledFrom s).Admits x := by
  by_cases hs : s.Ordered
  · have hsame : s.intersect? (t.filledFrom s) = s.intersect? t := by
      rw [intersect?, intersect?, overlap_filledFrom]
    rw [← hsame]
    constructor
    · intro hsome
      obtain ⟨c, hc⟩ := Option.isSome_iff_exists.mp hsome
      have hsolid := (intersect?_eq_some_iff.mp hc).2
      rw [(intersect?_eq_some_iff.mp hc).1, isEmpty_iff] at hsolid
      push Not at hsolid
      obtain ⟨x, hx⟩ := hsolid
      exact ⟨x, (exists_intersect?_iff hs (hs.filledFrom t) x).mp ⟨c, hc, hx⟩⟩
    · rintro ⟨x, hx⟩
      obtain ⟨c, hc, -⟩ := (exists_intersect?_iff hs (hs.filledFrom t) x).mpr hx
      exact Option.isSome_iff_exists.mpr ⟨c, hc⟩
  · rw [intersect?_eq_none_of_not_ordered hs]
    exact iff_of_false nofun fun ⟨_, hx, _⟩ => hs hx.ordered

end Segment

namespace Region

/-- Some point lies in both regions. -/
def Shares (a b : Region) : Prop := ∃ x, a.Admits x ∧ b.Admits x

/-- Some segment of the second region has a bound that is `nan`, and meets a segment of
the first only because that bound is passed over. -/
def Strays (a b : Region) : Prop :=
  ∃ s ∈ a.segments, ∃ t ∈ b.segments, ¬ t.Ordered ∧ ∃ x, s.Admits x ∧ (t.filledFrom s).Admits x

/-- The first region meets the second by straying into it, and not the other way round. -/
def OneWay (a b : Region) : Prop := ¬ a.Shares b ∧ a.Strays b ∧ ¬ b.Strays a

variable {a b : Region}

theorem shares_comm : a.Shares b ↔ b.Shares a := exists_congr fun _ => and_comm

theorem Ordered.not_strays (hb : b.Ordered) : ¬ a.Strays b := by
  rintro ⟨s, -, t, ht, hnan, -⟩
  exact hnan (hb t ht)

theorem meets_iff_exists_segments :
    a.meets b = true ↔ ∃ s ∈ a.segments, ∃ t ∈ b.segments, (s.intersect? t).isSome := by
  rw [meets, intersect?]
  constructor
  · intro hsome
    obtain ⟨c, hc⟩ := Option.isSome_iff_exists.mp hsome
    have hfirst : c.first ∈ a.segments.flatMap fun s => b.segments.filterMap s.intersect? := by
      rw [← ofSegments?_eq_some_iff.mp hc]
      exact List.mem_cons_self ..
    obtain ⟨s, hs, hmem⟩ := List.mem_flatMap.mp hfirst
    obtain ⟨t, ht, hst⟩ := List.mem_filterMap.mp hmem
    exact ⟨s, hs, t, ht, Option.isSome_iff_exists.mpr ⟨_, hst⟩⟩
  · rintro ⟨s, hs, t, ht, hsome⟩
    obtain ⟨c, hc⟩ := Option.isSome_iff_exists.mp hsome
    have hmem : c ∈ a.segments.flatMap fun s => b.segments.filterMap s.intersect? :=
      List.mem_flatMap.mpr ⟨s, hs, List.mem_filterMap.mpr ⟨t, ht, hc⟩⟩
    obtain ⟨first, others, hsegments⟩ := List.exists_cons_of_ne_nil (List.ne_nil_of_mem hmem)
    rw [hsegments]
    rfl

/-- **Two regions meet for one of two reasons**: a common point, or a `nan` of the second
one that is passed over. -/
theorem meets_iff (a b : Region) : a.meets b = true ↔ a.Shares b ∨ a.Strays b := by
  rw [meets_iff_exists_segments]
  simp only [Segment.isSome_intersect?_iff]
  constructor
  · rintro ⟨s, hs, t, ht, x, hsx, htx⟩
    by_cases hordered : t.Ordered
    · rw [Segment.filledFrom_eq_self hordered] at htx
      exact .inl ⟨x, ⟨s, hs, hsx⟩, t, ht, htx⟩
    · exact .inr ⟨s, hs, t, ht, hordered, x, hsx, htx⟩
  · rintro (⟨x, ⟨s, hs, hsx⟩, t, ht, htx⟩ | ⟨s, hs, t, ht, -, x, hx⟩)
    · refine ⟨s, hs, t, ht, x, hsx, ?_⟩
      rw [Segment.filledFrom_eq_self htx.ordered]
      exact htx
    · exact ⟨s, hs, t, ht, x, hx⟩

/-- One answer is yes and the other one is no if the first region meets the second one
way. -/
theorem oneWay_iff (a b : Region) : a.OneWay b ↔ a.meets b = true ∧ b.meets a = false := by
  rw [← Bool.not_eq_true, meets_iff, meets_iff, shares_comm (a := b), OneWay]
  tauto

end Region

/-- Two answers are the same if neither is yes where the other is no. -/
theorem eq_iff_not_differ {p q : Bool} :
    p = q ↔ ¬ (p = true ∧ q = false) ∧ ¬ (q = true ∧ p = false) := by
  cases p <;> cases q <;> decide

namespace Slot

/-- The slots are ranges, and the first region meets the second one way. -/
def OneWay : Slot → Slot → Prop
  | range _ region _, range _ region' _ => region.OneWay region'
  | _, _ => False

theorem oneWay_iff (a b : Slot) : a.OneWay b ↔ a.meets b = true ∧ b.meets a = false := by
  cases a with
  | missing => cases b <;> simp [OneWay, meets]
  | truth relation value =>
      cases b with
      | missing => simp [OneWay, meets]
      | truth relation' value' => cases value <;> cases value' <;> simp [OneWay, meets]
      | range relation' region' precision' => simp [OneWay, meets]
  | range relation region precision =>
      cases b with
      | missing => simp [OneWay, meets]
      | truth relation' value' => simp [OneWay, meets]
      | range relation' region' precision' => exact region.oneWay_iff region'

end Slot

namespace Tuple

/-- The tuples meet, and at some place the first slot meets the second one way. -/
def OneWay (a b : Tuple) : Prop :=
  List.Forall₂ (fun slot slot' => slot.meets slot' = true) a b ∧
    ∃ pair ∈ a.zip b, pair.1.OneWay pair.2

/-- Two tuples meet if they have one width and meet at every place. -/
theorem meets_iff_forall₂ : ∀ a b : Tuple,
    a.meets b = true ↔ List.Forall₂ (fun slot slot' => slot.meets slot' = true) a b
  | [], [] => by simp [meets]
  | [], _ :: _ => by simp [meets]
  | _ :: _, [] => by simp [meets]
  | slot :: rest, slot' :: rest' => by
      rw [meets, Bool.and_eq_true, List.forall₂_cons, meets_iff_forall₂ rest rest']

/-- Where the first tuple meets the second, the second fails to meet the first if it does
so at some place. -/
theorem not_meets_iff_exists {a b : Tuple} (h : a.meets b = true) :
    b.meets a = false ↔ ∃ pair ∈ a.zip b, pair.2.meets pair.1 = false := by
  induction (meets_iff_forall₂ a b).mp h with
  | nil => simp [meets]
  | @cons slot slot' rest rest' _ hrest ih =>
      rw [meets, Bool.and_eq_false_iff, ih ((meets_iff_forall₂ rest rest').mpr hrest),
        List.zip_cons_cons, List.exists_mem_cons_iff]

theorem meets_of_mem_zip {a b : Tuple} (h : a.meets b = true) :
    ∀ pair ∈ a.zip b, pair.1.meets pair.2 = true := by
  intro pair hpair
  exact (List.forall₂_iff_zip.mp ((meets_iff_forall₂ a b).mp h)).2 hpair

theorem oneWay_iff (a b : Tuple) : a.OneWay b ↔ a.meets b = true ∧ b.meets a = false := by
  rw [OneWay, ← meets_iff_forall₂]
  refine and_congr_right fun h => ?_
  rw [not_meets_iff_exists h]
  refine exists_congr fun pair => and_congr_right fun hpair => ?_
  rw [Slot.oneWay_iff]
  exact and_iff_right (meets_of_mem_zip h pair hpair)

/-- Tuples without `nan` never meet one way. -/
theorem not_oneWay {a b : Tuple} (hb : ∀ slot ∈ b, slot.Ordered) : ¬ a.OneWay b := by
  rintro ⟨-, ⟨slot, slot'⟩, hpair, honeWay⟩
  have hordered : slot'.Ordered := hb slot' (List.of_mem_zip hpair).2
  cases slot with
  | missing => exact honeWay
  | truth relation value => exact honeWay
  | range relation region precision =>
      cases slot' with
      | missing => exact honeWay
      | truth relation' value' => exact honeWay
      | range relation' region' precision' => exact hordered.not_strays honeWay.2.1

end Tuple

/-- **Meeting is symmetric but for a `nan` that is passed over.**  A segment with a `nan`
overlaps nothing if it stands on the left; on the right it overlaps whatever meets it
with the bounds of the left one filled in.  Two regions, two slots or two tuples give
different answers from the two sides exactly if one of them meets the other one way:
regions without a common point, of which just one strays into a `nan` of the other.
Tuples without `nan` give the same answer. -/
theorem meets_comm_iff (s t : Segment) (r r' : Region) (c d : Slot) (a b : Tuple) :
    (¬ s.Ordered → s.intersect? t = none) ∧
    ((s.intersect? t).isSome ↔ ∃ x, s.Admits x ∧ (t.filledFrom s).Admits x) ∧
    (r.meets r' = r'.meets r ↔ ¬ r.OneWay r' ∧ ¬ r'.OneWay r) ∧
    (c.meets d = d.meets c ↔ ¬ c.OneWay d ∧ ¬ d.OneWay c) ∧
    (a.meets b = b.meets a ↔ ¬ a.OneWay b ∧ ¬ b.OneWay a) ∧
    ((∀ slot ∈ a, slot.Ordered) → (∀ slot ∈ b, slot.Ordered) → a.meets b = b.meets a) := by
  have htuple : a.meets b = b.meets a ↔ ¬ a.OneWay b ∧ ¬ b.OneWay a := by
    rw [Tuple.oneWay_iff, Tuple.oneWay_iff]
    exact eq_iff_not_differ
  refine ⟨fun h => ?_, Segment.isSome_intersect?_iff s t, ?_, ?_, htuple, fun ha hb => ?_⟩
  · exact Segment.intersect?_eq_none_of_not_ordered h t
  · rw [Region.oneWay_iff, Region.oneWay_iff]
    exact eq_iff_not_differ
  · rw [Slot.oneWay_iff, Slot.oneWay_iff]
    exact eq_iff_not_differ
  · exact htuple.mpr ⟨Tuple.not_oneWay hb, Tuple.not_oneWay ha⟩

/-- The segment from `nan` to one overlaps nothing from the left, but from the right it
overlaps the unit interval, so that regions of the two meet one way.  In tuples over
numbers alone the side does not matter. -/
theorem meets_comm_iff_unit_interval :
    ∃ s t : Segment,
      s = ⟨.closed, ⟨.nan, .ofRatio false 1 1⟩⟩ ∧
      t = ⟨.closed, ⟨.ofRatio false 0 1, .ofRatio false 1 1⟩⟩ ∧
      ¬ s.Ordered ∧ s.intersect? t = none ∧ (t.intersect? s).isSome = true ∧
      (Region.mk t []).OneWay (Region.mk s []) ∧
      ∃ a b : Tuple,
        a = [.missing, .range .within (.mk t []) .zero] ∧
        b = [.ofTruth true, .range .within (.mk t [t]) .zero] ∧
        (∀ slot ∈ a, slot.Ordered) ∧ (∀ slot ∈ b, slot.Ordered) ∧
        a.meets b = b.meets a ∧ a.meets b = true := by
  let s : Segment := ⟨.closed, ⟨.nan, .ofRatio false 1 1⟩⟩
  let t : Segment := ⟨.closed, ⟨.ofRatio false 0 1, .ofRatio false 1 1⟩⟩
  let a : Tuple := [.missing, .range .within (.mk t []) .zero]
  let b : Tuple := [.ofTruth true, .range .within (.mk t [t]) .zero]
  have hs : ¬ s.Ordered := fun h => h.1 rfl
  have ht : t.Ordered := ⟨Number.ofRank_ne_nan _ _, Number.ofRank_ne_nan _ _⟩
  have hone : (t.intersect? s).isSome = true := by decide +kernel
  have honeWay : (Region.mk t []).OneWay (Region.mk s []) :=
    (Region.oneWay_iff _ _).mpr (by decide +kernel)
  have ha : ∀ slot ∈ a, slot.Ordered := by
    simp [a, Slot.Ordered, Region.Ordered, Region.segments, ht]
  have hb : ∀ slot ∈ b, slot.Ordered := by
    simp [b, Slot.Ordered, Slot.ofTruth, Region.Ordered, Region.segments, ht]
  have hmeets : a.meets b = true := by decide +kernel
  obtain ⟨hnone, -, -, -, -, hcomm⟩ :=
    meets_comm_iff s t (.mk s []) (.mk t []) .missing .missing a b
  exact ⟨s, t, rfl, rfl, hs, hnone hs, hone, honeWay, a, b, rfl, rfl, ha, hb, hcomm ha hb,
    hmeets⟩

/-- The unit interval meets the interval from `nan` to one, and that one does not meet the
unit interval.  Both are written as JSON and read back as they are. -/
theorem nan_bound_meets_one_way :
    ∃ a b : Tuple,
      a = [.range .within (.single ⟨.ofRatio false 0 1, .ofRatio false 1 1⟩ .closed)
        (.ofRatio false 1 1)] ∧
      b = [.range .within (.single ⟨.nan, .ofRatio false 1 1⟩ .closed) (.ofRatio false 1 1)] ∧
      Tuple.decode? a.encode = some a ∧ Tuple.decode? b.encode = some b ∧
      a.meets b = true ∧ b.meets a = false := by
  refine ⟨_, _, rfl, rfl, ?_, ?_, ?_, ?_⟩
  · decide +kernel
  · decide +kernel
  · decide +kernel
  · decide +kernel

end DecisionTuples
