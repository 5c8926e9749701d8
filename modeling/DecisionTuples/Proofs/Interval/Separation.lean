import DecisionTuples.Proofs.Interval.Intersection

/-!
# Segments apart from each other

What it means for the bounds of segments that the segments stand in order.

* `Segment.Before.apart`: of two segments in order, neither of them empty, the first ends
  before the second begins, or they share a bound that one of them leaves out.
* `Segment.length_overlaps_le`: of two lists of segments in order there are fewer overlaps
  than segments.  Of lists in any order there may be as many as pairs.

The second is why regions do not grow out of bounds when many of them are intersected:
each adds at most as many segments as it has beyond its first
(`Region.length_others_of_intersect?`).
-/

namespace DecisionTuples

theorem Beyond.le {leftOut : Bool} {x y : EReal} (h : Beyond leftOut x y) : x ≤ y := by
  cases leftOut with
  | true => exact le_of_lt h
  | false => exact h

theorem Beyond.trans_le {leftOut : Bool} {x y z : EReal} (h : Beyond leftOut x y) (h' : y ≤ z) :
    Beyond leftOut x z := by
  cases leftOut with
  | true => exact lt_of_lt_of_le h h'
  | false => exact LE.le.trans h h'

theorem Beyond.le_trans {leftOut : Bool} {x y z : EReal} (h : x ≤ y) (h' : Beyond leftOut y z) :
    Beyond leftOut x z := by
  cases leftOut with
  | true => exact lt_of_le_of_lt h h'
  | false => exact LE.le.trans h h'

namespace Segment

variable {a b s : Segment} {x y z : EReal}

/-! ## Bounds -/

/-- What lies further up than an admitted point and before the upper end is admitted. -/
theorem Admits.upward (h : s.Admits x) (hxz : x ≤ z)
    (hz : BeforeHi (s.interval.hi, s.openness.hi) z) : s.Admits z := by
  obtain ⟨⟨lo, hlo, hpast⟩, -⟩ := h
  exact ⟨⟨lo, hlo, hpast.trans_le hxz⟩, hz⟩

/-- What lies further down than an admitted point and past the lower end is admitted. -/
theorem Admits.downward (h : s.Admits y) (hzy : z ≤ y)
    (hz : PastLo (s.interval.lo, s.openness.lo) z) : s.Admits z := by
  obtain ⟨-, hi, hhi, hbefore⟩ := h
  exact ⟨hz, hi, hhi, hbefore.le_trans hzy⟩

theorem exists_admits_iff : (∃ x, s.Admits x) ↔ ¬ s.IsEmpty := by
  rw [isEmpty_iff, not_forall_not]

/-- The first segment ends before the second begins, or they share a bound that one of them
leaves out. -/
def Apart (a b : Segment) : Prop :=
  a.interval.hi < b.interval.lo ∨
    (a.interval.hi == b.interval.lo) ∧ (a.openness.hi ∨ b.openness.lo)

instance (a b : Segment) : Decidable (a.Apart b) := inferInstanceAs (Decidable (_ ∨ _ ∧ _))

/-- Segments in order, neither of them empty, are apart. -/
theorem Before.apart (h : a.Before b) (ha : ¬ a.IsEmpty) (hb : ¬ b.IsEmpty) : a.Apart b := by
  obtain ⟨x, hx⟩ := exists_admits_iff.mpr ha
  obtain ⟨y, hy⟩ := exists_admits_iff.mpr hb
  obtain ⟨p, hp⟩ := Number.exists_extended? hx.ordered.2
  obtain ⟨q, hq⟩ := Number.exists_extended? hy.ordered.1
  have hxy : x < y := h x y hx hy
  have hbefore (z : EReal) : BeforeHi (a.interval.hi, a.openness.hi) z ↔
      Beyond a.openness.hi z p := beforeHi_iff hp
  have hpast (z : EReal) : PastLo (b.interval.lo, b.openness.lo) z ↔
      Beyond b.openness.lo q z := pastLo_iff hq
  -- No point is in both segments.
  have hnone (z : EReal) (hza : a.Admits z) : ¬ b.Admits z := fun hzb => lt_irrefl z (h z z hza hzb)
  rcases lt_trichotomy p q with hlt | rfl | hgt
  · exact .inl ((Number.lt_iff_of_extended? hp hq).mpr hlt)
  · refine .inr ⟨(Number.beq_iff_of_extended? hp hq).mpr rfl, ?_⟩
    by_contra hclosed
    rw [not_or, Bool.not_eq_true, Bool.not_eq_true] at hclosed
    have hpa : Beyond a.openness.hi p p := by
      rw [hclosed.1]
      exact le_rfl
    have hpb : Beyond b.openness.lo p p := by
      rw [hclosed.2]
      exact le_rfl
    exact hnone p (hx.upward ((hbefore x).mp hx.2).le ((hbefore p).mpr hpa))
      (hy.downward ((hpast y).mp hy.1).le ((hpast p).mpr hpb))
  · exfalso
    by_cases hqx : q < x
    · exact hnone x hx (hy.downward hxy.le ((hpast x).mpr (.of_lt hqx)))
    · by_cases hyp : y < p
      · exact hnone y (hx.upward hxy.le ((hbefore y).mpr (.of_lt hyp))) hy
      · obtain ⟨z, hqz, hzp⟩ := exists_between hgt
        have hxz : x ≤ z := (not_lt.mp hqx).trans hqz.le
        have hzy : z ≤ y := hzp.le.trans (not_lt.mp hyp)
        exact hnone z (hx.upward hxz ((hbefore z).mpr (.of_lt hzp)))
          (hy.downward hzy ((hpast z).mpr (.of_lt hqz)))

/-! ## The number of overlaps -/

/-- A segment that meets nothing of the other list can be left out. -/
theorem overlaps_cons_right {as bs : List Segment} (h : ∀ a ∈ as, a.intersect? b = none) :
    overlaps as (b :: bs) = overlaps as bs :=
  List.flatMap_congr fun a ha => List.filterMap_cons_none (h a ha)

theorem length_filterMap_cons_le {α β : Type} (f : α → Option β) (x : α) (xs : List α) :
    ((x :: xs).filterMap f).length ≤ (xs.filterMap f).length + 1 := by
  cases h : f x <;> simp [h]

/-- Of segments in order there are fewer overlaps than segments. -/
theorem length_overlaps_le : ∀ as bs : List Segment, (∀ s ∈ as, s.Ordered) →
    (∀ s ∈ bs, s.Ordered) → as.Pairwise Before → bs.Pairwise Before →
      (overlaps as bs).length ≤ as.length + bs.length - 1
  | [], _, _, _, _, _ => Nat.zero_le _
  | a :: as, [], _, _, _, _ => by simp [overlaps]
  | a :: as, b :: bs, ha, hb, has, hbs => by
      obtain ⟨hafter, has'⟩ := List.pairwise_cons.mp has
      obtain ⟨hbfter, hbs'⟩ := List.pairwise_cons.mp hbs
      have ha' := List.forall_mem_cons.mp ha
      have hb' := List.forall_mem_cons.mp hb
      have hcommon {s t : Segment} (hs : s.Ordered) (ht : t.Ordered)
          (h : s.intersect? t ≠ none) : ∃ x, s.Admits x ∧ t.Admits x := by
        obtain ⟨c, hc⟩ := Option.ne_none_iff_exists'.mp h
        obtain ⟨rfl, hsolid⟩ := intersect?_eq_some_iff.mp hc
        obtain ⟨x, hx⟩ := exists_admits_iff.mpr hsolid
        exact ⟨x, (overlap_admits_iff hs ht x).mp hx⟩
      have hfirst := length_filterMap_cons_le a.intersect? b bs
      rw [overlaps_cons, List.length_append]
      -- One of the two first segments meets nothing behind the other one.
      by_cases hmeets : ∀ t ∈ bs, a.intersect? t = none
      · have hnone : bs.filterMap a.intersect? = [] := List.filterMap_eq_nil_iff.mpr hmeets
        have hrest := length_overlaps_le as (b :: bs) ha'.2 hb has' hbs
        rw [hnone] at hfirst
        simp only [List.length_cons, List.length_nil] at *
        omega
      · push Not at hmeets
        obtain ⟨t, ht, hat⟩ := hmeets
        have hnone : ∀ s ∈ as, s.intersect? b = none := by
          intro s hs
          by_contra hsb
          obtain ⟨x, hax, htx⟩ := hcommon ha'.1 (hb'.2 t ht) hat
          obtain ⟨y, hsy, hby⟩ := hcommon (ha'.2 s hs) hb'.1 hsb
          exact lt_asymm (hafter s hs x y hax hsy) (hbfter t ht y x hby htx)
        have hrest := length_overlaps_le (a :: as) bs ha hb'.2 has hbs'
        rw [overlaps_cons, List.length_append] at hrest
        rw [overlaps_cons_right hnone]
        simp only [List.length_cons] at *
        omega
termination_by as bs => as.length + bs.length

end Segment

namespace Region

variable {a b c : Region}

/-- Intersecting adds the cuts between segments of the two regions at most. -/
theorem length_others_of_intersect? (ha : a.Ordered) (hb : b.Ordered) (has : a.Sorted)
    (hbs : b.Sorted) (h : a.intersect? b = some c) :
    c.others.length ≤ a.others.length + b.others.length := by
  have hsegments : c.segments = Segment.overlaps a.segments b.segments :=
    ofSegments?_eq_some_iff.mp h
  have hlength := Segment.length_overlaps_le _ _ ha hb has hbs
  rw [← hsegments] at hlength
  simp only [segments, List.length_cons] at hlength
  omega

/-- The segments of a sorted region are apart, if none of them is empty. -/
theorem Sorted.apart (h : c.Sorted) (hsolid : c.Solid) : c.segments.Pairwise Segment.Apart :=
  List.Pairwise.imp_of_mem (fun hs ht hbefore => hbefore.apart (hsolid _ hs) (hsolid _ ht)) h

end Region
end DecisionTuples
