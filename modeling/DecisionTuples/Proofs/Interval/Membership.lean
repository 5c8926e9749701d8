import DecisionTuples.Interval.Region
import DecisionTuples.Proofs.Number.Line

/-!
# What segments and regions admit

A segment admits the points of the extended line between its ends, a region those
that one of its segments admits.  This is the meaning by which the operations on
them are judged here:

* `Segment.admits_iff_contains` says that for a number it is the code's own test;
* `Segment.isEmpty_iff` says that the code calls a segment empty exactly when it
  admits no point, the infinite ones included;
* `Segment.exists_intersect?_iff` and `Region.exists_intersect?_iff` say that an
  intersection admits exactly the common points, and that there is one exactly
  when there is a common point.

Intersecting takes one of two bounds by comparing them, so nothing is said about
bounds that are `nan`: a segment without such a bound is *ordered*.
-/

namespace DecisionTuples

/-- The second point lies past the first: strictly if the end between them is left
out. -/
def Beyond (leftOut : Bool) (x y : EReal) : Prop := if leftOut then x < y else x ≤ y

theorem Beyond.trans_lt {leftOut : Bool} {x y z : EReal} (h : x < y) (h' : Beyond leftOut y z) :
    x < z := by
  cases leftOut with
  | true => exact h.trans h'
  | false => exact h.trans_le h'

theorem Beyond.lt_trans {leftOut : Bool} {x y z : EReal} (h : Beyond leftOut x y) (h' : y < z) :
    x < z := by
  cases leftOut with
  | true => exact h.trans h'
  | false => exact lt_of_le_of_lt h h'

theorem Beyond.of_lt {leftOut : Bool} {x y : EReal} (h : x < y) : Beyond leftOut x y := by
  cases leftOut with
  | true => exact h
  | false => exact h.le

theorem beyond_or {a b : Bool} {x y : EReal} :
    Beyond (a || b) x y ↔ Beyond a x y ∧ Beyond b x y := by
  cases a <;> cases b <;> simp +contextual [Beyond, le_of_lt]

namespace Segment

/-! ## Ends -/

/-- The point lies past a lower end, a bound with its openness. -/
def PastLo (lo : Number × Bool) (x : EReal) : Prop :=
  ∃ bound, lo.1.extended? = some bound ∧ Beyond lo.2 bound x

/-- The point lies before an upper end. -/
def BeforeHi (hi : Number × Bool) (x : EReal) : Prop :=
  ∃ bound, hi.1.extended? = some bound ∧ Beyond hi.2 x bound

theorem pastLo_iff {lo : Number × Bool} {bound x : EReal} (h : lo.1.extended? = some bound) :
    PastLo lo x ↔ Beyond lo.2 bound x := by
  constructor
  · rintro ⟨other, hother, hbeyond⟩
    rw [h] at hother
    cases hother
    exact hbeyond
  · exact fun hbeyond => ⟨bound, h, hbeyond⟩

theorem beforeHi_iff {hi : Number × Bool} {bound x : EReal} (h : hi.1.extended? = some bound) :
    BeforeHi hi x ↔ Beyond hi.2 x bound := by
  constructor
  · rintro ⟨other, hother, hbeyond⟩
    rw [h] at hother
    cases hother
    exact hbeyond
  · exact fun hbeyond => ⟨bound, h, hbeyond⟩

/-- The tighter of two lower ends is one that a point passes by passing both. -/
theorem pastLo_tighterLo {a b : Number × Bool} (ha : a.1 ≠ .nan) (hb : b.1 ≠ .nan) (x : EReal) :
    PastLo (tighterLo a b) x ↔ PastLo a x ∧ PastLo b x := by
  obtain ⟨p, hp⟩ := Number.exists_extended? ha
  obtain ⟨q, hq⟩ := Number.exists_extended? hb
  rw [pastLo_iff hp, pastLo_iff hq]
  unfold tighterLo
  by_cases hba : b.1 < a.1
  · have hlt := (Number.lt_iff_of_extended? hq hp).mp hba
    rw [if_pos hba, pastLo_iff hp]
    exact ⟨fun h => ⟨h, .of_lt (h.trans_lt hlt)⟩, And.left⟩
  · rw [if_neg hba]
    by_cases hab : a.1 < b.1
    · have hlt := (Number.lt_iff_of_extended? hp hq).mp hab
      rw [if_pos hab, pastLo_iff hq]
      exact ⟨fun h => ⟨.of_lt (h.trans_lt hlt), h⟩, And.right⟩
    · have heq : p = q := le_antisymm
        (not_lt.mp fun h => hba ((Number.lt_iff_of_extended? hq hp).mpr h))
        (not_lt.mp fun h => hab ((Number.lt_iff_of_extended? hp hq).mpr h))
      subst heq
      -- At equal bounds the end is left out if one of the two leaves it out.
      have hboth : PastLo (a.1, a.2 || b.2) x ↔ Beyond (a.2 || b.2) p x := pastLo_iff hp
      rw [if_neg hab, hboth]
      exact beyond_or

/-- The tighter of two upper ends is one that a point keeps before by keeping before
both. -/
theorem beforeHi_tighterHi {a b : Number × Bool} (ha : a.1 ≠ .nan) (hb : b.1 ≠ .nan)
    (x : EReal) : BeforeHi (tighterHi a b) x ↔ BeforeHi a x ∧ BeforeHi b x := by
  obtain ⟨p, hp⟩ := Number.exists_extended? ha
  obtain ⟨q, hq⟩ := Number.exists_extended? hb
  rw [beforeHi_iff hp, beforeHi_iff hq]
  unfold tighterHi
  by_cases hab : a.1 < b.1
  · have hlt := (Number.lt_iff_of_extended? hp hq).mp hab
    rw [if_pos hab, beforeHi_iff hp]
    exact ⟨fun h => ⟨h, .of_lt (h.lt_trans hlt)⟩, And.left⟩
  · rw [if_neg hab]
    by_cases hba : b.1 < a.1
    · have hlt := (Number.lt_iff_of_extended? hq hp).mp hba
      rw [if_pos hba, beforeHi_iff hq]
      exact ⟨fun h => ⟨.of_lt (h.lt_trans hlt), h⟩, And.right⟩
    · have heq : p = q := le_antisymm
        (not_lt.mp fun h => hba ((Number.lt_iff_of_extended? hq hp).mpr h))
        (not_lt.mp fun h => hab ((Number.lt_iff_of_extended? hp hq).mpr h))
      subst heq
      -- At equal bounds the end is left out if one of the two leaves it out.
      have hboth : BeforeHi (a.1, a.2 || b.2) x ↔ Beyond (a.2 || b.2) x p := beforeHi_iff hp
      rw [if_neg hba, hboth]
      exact beyond_or

theorem tighterLo_ne_nan {a b : Number × Bool} (ha : a.1 ≠ .nan) (hb : b.1 ≠ .nan) :
    (tighterLo a b).1 ≠ .nan := by
  unfold tighterLo
  split
  · exact ha
  · split
    · exact hb
    · exact ha

theorem tighterHi_ne_nan {a b : Number × Bool} (ha : a.1 ≠ .nan) (hb : b.1 ≠ .nan) :
    (tighterHi a b).1 ≠ .nan := by
  unfold tighterHi
  split
  · exact ha
  · split
    · exact hb
    · exact ha

/-! ## Segments -/

/-- The segment admits the point. -/
def Admits (segment : Segment) (x : EReal) : Prop :=
  PastLo (segment.interval.lo, segment.openness.lo) x ∧
    BeforeHi (segment.interval.hi, segment.openness.hi) x

/-- Neither bound is `nan`. -/
def Ordered (segment : Segment) : Prop :=
  segment.interval.lo ≠ .nan ∧ segment.interval.hi ≠ .nan

theorem admits_iff_beyond {openness : Openness} {lo hi : Number} {p q : EReal}
    (hlo : lo.extended? = some p) (hhi : hi.extended? = some q) (x : EReal) :
    Admits ⟨openness, ⟨lo, hi⟩⟩ x ↔ Beyond openness.lo p x ∧ Beyond openness.hi x q :=
  and_congr (pastLo_iff hlo) (beforeHi_iff hhi)

theorem Admits.ordered {segment : Segment} {x : EReal} (h : segment.Admits x) :
    segment.Ordered := by
  obtain ⟨⟨lo, hlo, -⟩, hi, hhi, -⟩ := h
  constructor
  · intro hnan
    rw [hnan] at hlo
    cases hlo
  · intro hnan
    rw [hnan] at hhi
    cases hhi

theorem past_iff {leftOut : Bool} {a b : Number} {x y : EReal} (ha : a.extended? = some x)
    (hb : b.extended? = some y) : Past leftOut a b ↔ Beyond leftOut x y := by
  cases leftOut with
  | true => exact Number.lt_iff_of_extended? ha hb
  | false => exact Number.le_iff_of_extended? ha hb

/-- Nothing is past or before `nan`. -/
theorem Past.ne_nan {leftOut : Bool} {a b : Number} (h : Past leftOut a b) :
    a ≠ .nan ∧ b ≠ .nan := by
  constructor
  · rintro rfl
    cases leftOut <;> exact h
  · rintro rfl
    cases a with
    | nan => cases leftOut <;> exact h
    | signed negative rank => cases leftOut <;> cases negative <;> exact h

/-- For a number, to be admitted is what the code tests. -/
theorem admits_iff_contains (segment : Segment) {a : Number} {x : EReal}
    (h : a.extended? = some x) : segment.Admits x ↔ segment.Contains a := by
  constructor
  · rintro ⟨⟨lo, hlo, hpast⟩, hi, hhi, hbefore⟩
    exact ⟨(past_iff hlo h).mpr hpast, (past_iff h hhi).mpr hbefore⟩
  · rintro ⟨hpast, hbefore⟩
    obtain ⟨lo, hlo⟩ := Number.exists_extended? hpast.ne_nan.1
    obtain ⟨hi, hhi⟩ := Number.exists_extended? hbefore.ne_nan.2
    exact ⟨⟨lo, hlo, (past_iff hlo h).mp hpast⟩, hi, hhi, (past_iff h hhi).mp hbefore⟩

/-- The code calls a segment empty exactly when it admits no point at all. -/
theorem isEmpty_iff (segment : Segment) : segment.IsEmpty ↔ ∀ x, ¬ segment.Admits x := by
  obtain ⟨⟨openLo, openHi⟩, ⟨lo, hi⟩⟩ := segment
  by_cases hlo : lo = .nan
  · subst hlo
    exact ⟨fun _ x hx => hx.ordered.1 rfl, fun _ => .inl rfl⟩
  by_cases hhi : hi = .nan
  · subst hhi
    exact ⟨fun _ x hx => hx.ordered.2 rfl, fun _ => .inr (.inl rfl)⟩
  obtain ⟨p, hp⟩ := Number.exists_extended? hlo
  obtain ⟨q, hq⟩ := Number.exists_extended? hhi
  have hloNaN : lo.isNaN = false := Number.isNaN_eq_false hlo
  have hhiNaN : hi.isNaN = false := Number.isNaN_eq_false hhi
  have hempty : IsEmpty ⟨⟨openLo, openHi⟩, ⟨lo, hi⟩⟩ ↔ q < p ∨ (p = q ∧ (openLo ∨ openHi)) := by
    simp only [IsEmpty, hloNaN, hhiNaN, Bool.false_eq_true, false_or, Interval.isPoint,
      Number.lt_iff_of_extended? hq hp, Number.beq_iff_of_extended? hp hq]
  rw [hempty]
  simp only [admits_iff_beyond hp hq]
  constructor
  · rintro (hlt | ⟨rfl, hopen⟩) x ⟨hpast, hbefore⟩
    · -- The bounds stand in the wrong order.
      exact lt_irrefl x (hbefore.lt_trans (hpast.trans_lt hlt))
    · rcases hopen with rfl | rfl
      · exact lt_irrefl x (hbefore.lt_trans hpast)
      · exact lt_irrefl x (hbefore.trans_le (by cases openLo with
          | true => exact le_of_lt hpast
          | false => exact hpast))
  · intro hnone
    rcases lt_trichotomy p q with hlt | rfl | hlt
    · -- Between two different points there is a third.
      obtain ⟨x, hpx, hxq⟩ := exists_between hlt
      exact absurd ⟨.of_lt hpx, .of_lt hxq⟩ (hnone x)
    · right
      refine ⟨rfl, ?_⟩
      by_contra hclosed
      rw [not_or, Bool.not_eq_true, Bool.not_eq_true] at hclosed
      obtain ⟨rfl, rfl⟩ := hclosed
      exact hnone p ⟨le_rfl, le_rfl⟩
    · exact .inl hlt

theorem overlap_ordered {a b : Segment} (ha : a.Ordered) (hb : b.Ordered) :
    (a.overlap b).Ordered :=
  ⟨tighterLo_ne_nan ha.1 hb.1, tighterHi_ne_nan ha.2 hb.2⟩

/-- The overlap admits exactly the common points. -/
theorem overlap_admits_iff {a b : Segment} (ha : a.Ordered) (hb : b.Ordered) (x : EReal) :
    (a.overlap b).Admits x ↔ a.Admits x ∧ b.Admits x := by
  have hlo := @pastLo_tighterLo (a.interval.lo, a.openness.lo) (b.interval.lo, b.openness.lo)
    ha.1 hb.1 x
  have hhi := @beforeHi_tighterHi (a.interval.hi, a.openness.hi) (b.interval.hi, b.openness.hi)
    ha.2 hb.2 x
  exact (and_congr hlo hhi).trans and_and_and_comm

theorem intersect?_eq_some_iff {a b c : Segment} :
    a.intersect? b = some c ↔ a.overlap b = c ∧ ¬ (a.overlap b).IsEmpty := by
  unfold intersect?
  split <;> simp_all

/-- An intersection of segments admits exactly the common points, and there is one if
there is such a point. -/
theorem exists_intersect?_iff {a b : Segment} (ha : a.Ordered) (hb : b.Ordered) (x : EReal) :
    (∃ c, a.intersect? b = some c ∧ c.Admits x) ↔ a.Admits x ∧ b.Admits x := by
  rw [← overlap_admits_iff ha hb]
  constructor
  · rintro ⟨c, hc, hx⟩
    rw [(intersect?_eq_some_iff.mp hc).1]
    exact hx
  · intro hx
    exact ⟨_, intersect?_eq_some_iff.mpr
      ⟨rfl, fun hempty => (isEmpty_iff _).mp hempty x hx⟩, hx⟩

end Segment

/-! ## Regions -/

namespace Region

/-- Some segment of the region admits the point. -/
def Admits (region : Region) (x : EReal) : Prop := ∃ segment ∈ region.segments, segment.Admits x

/-- No bound of a segment is `nan`. -/
def Ordered (region : Region) : Prop := ∀ segment ∈ region.segments, segment.Ordered

/-- No segment is empty. -/
def Solid (region : Region) : Prop := ∀ segment ∈ region.segments, ¬ segment.IsEmpty

theorem admits_single (interval : Interval) (openness : Openness) (x : EReal) :
    (single interval openness).Admits x ↔ Segment.Admits ⟨openness, interval⟩ x := by
  simp [Admits]

/-- A region without empty segments admits a point. -/
theorem Solid.exists_admits {region : Region} (h : region.Solid) : ∃ x, region.Admits x := by
  have hfirst := h region.first (List.mem_cons_self ..)
  rw [Segment.isEmpty_iff] at hfirst
  push Not at hfirst
  obtain ⟨x, hx⟩ := hfirst
  exact ⟨x, region.first, List.mem_cons_self .., hx⟩

theorem ordered_single {interval : Interval} {openness : Openness}
    (h : interval.lo ≠ .nan ∧ interval.hi ≠ .nan) : (single interval openness).Ordered := by
  intro segment hsegment
  obtain rfl := List.mem_singleton.mp hsegment
  exact h

theorem ordered_solutions (comparison : Comparison) {constant : Number} (h : constant ≠ .nan) :
    (solutions comparison constant).Ordered := by
  cases comparison with
  | less => exact ordered_single ⟨nofun, h⟩
  | atMost => exact ordered_single ⟨nofun, h⟩
  | greater => exact ordered_single ⟨h, nofun⟩
  | atLeast => exact ordered_single ⟨h, nofun⟩
  | equal => exact ordered_single ⟨h, h⟩
  | notEqual => exact ordered_single ⟨h, h⟩

theorem ordered_excluding {constant : Number} (h : constant ≠ .nan) :
    (excluding constant).Ordered := by
  intro segment hsegment
  rcases List.mem_cons.mp hsegment with rfl | hsegment
  · exact ⟨nofun, h⟩
  · obtain rfl := List.mem_singleton.mp hsegment
    exact ⟨h, nofun⟩

theorem ofSegments?_eq_some_iff {segments : List Segment} {region : Region} :
    ofSegments? segments = some region ↔ region.segments = segments := by
  cases segments with
  | nil => simp [ofSegments?, Region.segments]
  | cons first others =>
      obtain ⟨first', others'⟩ := region
      simp [ofSegments?, Region.segments, eq_comm]

section

variable {a b c : Region}

/-- The segments of an intersection are the intersections of a segment with a
segment. -/
theorem mem_segments_of_intersect? (h : a.intersect? b = some c) (segment : Segment) :
    segment ∈ c.segments ↔
      ∃ s ∈ a.segments, ∃ t ∈ b.segments, s.intersect? t = some segment := by
  rw [ofSegments?_eq_some_iff.mp h, List.mem_flatMap]
  simp only [List.mem_filterMap]

theorem Ordered.intersect? (ha : a.Ordered) (hb : b.Ordered) (h : a.intersect? b = some c) :
    c.Ordered := by
  intro segment hsegment
  obtain ⟨s, hs, t, ht, hst⟩ := (mem_segments_of_intersect? h segment).mp hsegment
  rw [← (Segment.intersect?_eq_some_iff.mp hst).1]
  exact Segment.overlap_ordered (ha s hs) (hb t ht)

/-- Intersecting leaves no empty segment. -/
theorem solid_of_intersect? (h : a.intersect? b = some c) : c.Solid := by
  intro segment hsegment
  obtain ⟨s, -, t, -, hst⟩ := (mem_segments_of_intersect? h segment).mp hsegment
  obtain ⟨rfl, hsolid⟩ := Segment.intersect?_eq_some_iff.mp hst
  exact hsolid

/-- An intersection of regions admits exactly the common points, and there is one if
there is such a point. -/
theorem exists_intersect?_iff (ha : a.Ordered) (hb : b.Ordered) (x : EReal) :
    (∃ c, a.intersect? b = some c ∧ c.Admits x) ↔ a.Admits x ∧ b.Admits x := by
  constructor
  · rintro ⟨c, hc, segment, hsegment, hx⟩
    obtain ⟨s, hs, t, ht, hst⟩ := (mem_segments_of_intersect? hc segment).mp hsegment
    obtain ⟨hsx, htx⟩ :=
      (Segment.exists_intersect?_iff (ha s hs) (hb t ht) x).mp ⟨segment, hst, hx⟩
    exact ⟨⟨s, hs, hsx⟩, t, ht, htx⟩
  · rintro ⟨⟨s, hs, hsx⟩, t, ht, htx⟩
    obtain ⟨segment, hst, hx⟩ :=
      (Segment.exists_intersect?_iff (ha s hs) (hb t ht) x).mpr ⟨hsx, htx⟩
    -- One pair of segments meets, so the list of all intersections is not empty.
    have hmem : segment ∈ a.segments.flatMap fun s => b.segments.filterMap s.intersect? :=
      List.mem_flatMap.mpr ⟨s, hs, List.mem_filterMap.mpr ⟨t, ht, hst⟩⟩
    obtain ⟨first, others, hsegments⟩ := List.exists_cons_of_ne_nil (List.ne_nil_of_mem hmem)
    have hc : a.intersect? b = some ⟨first, others⟩ := by
      rw [Region.intersect?, hsegments]
      rfl
    exact ⟨_, hc, segment, (mem_segments_of_intersect? hc segment).mpr ⟨s, hs, t, ht, hst⟩, hx⟩

end

end Region
end DecisionTuples
