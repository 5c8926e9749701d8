import DecisionTuples.Proofs.Interval.Membership
import Mathlib.Data.List.Nodup

/-!
# The laws of intersecting

Intersecting regions makes a list of all overlaps, segment by segment, and keeps the
bounds of the first region where two bounds are the same value.  Two laws hold of the
lists themselves, not only of the points that they admit.

* Intersecting is associative (`Region.intersect?_assoc`): overlaps are kept in the same
  order and with the same bounds, whichever two regions are intersected first.
* Intersecting is commutative up to the signs of zeros (`Region.intersect?_comm`), for
  regions whose segments are in order and apart from each other.  Then the overlaps are
  in order as well, and lists in order are equal if they have the same members.

The sign of a zero is all that equality of values does not see.  `normal` drops it, so
that equality of values becomes equality (`Region.beq_iff_normal_eq`).  Nothing is said
about bounds that are `nan`.
-/

namespace DecisionTuples

/-! ## Numbers without the sign of zero -/

namespace Number

/-- The number, with zero in place of negative zero. -/
def normal (a : Number) : Number := if a.place? = some 0 then zero else a

@[simp] theorem place?_normal (a : Number) : a.normal.place? = a.place? := by
  unfold normal
  split
  · next h => rw [h]; rfl
  · rfl

@[simp] theorem extended?_normal (a : Number) : a.normal.extended? = a.extended? := by
  simp [extended?]

@[simp] theorem related_normal (rel : Int → Int → Prop) (a b : Number) :
    Related rel a.normal b.normal ↔ Related rel a b := by
  simp [Related]

@[simp] theorem normal_lt_normal (a b : Number) : a.normal < b.normal ↔ a < b :=
  related_normal _ a b

@[simp] theorem normal_beq_normal (a b : Number) : (a.normal == b.normal) = (a == b) :=
  decide_eq_decide.mpr (related_normal _ a b)

@[simp] theorem isNaN_normal (a : Number) : a.normal.isNaN = a.isNaN := by
  unfold normal
  split
  · next h =>
      cases a with
      | nan => cases h
      | signed negative rank => rfl
  · rfl

/-- Away from zero a place belongs to one number only. -/
theorem eq_of_place? {a b : Number} {p : Int} (ha : a.place? = some p) (hb : b.place? = some p)
    (hp : p ≠ 0) : a = b := by
  cases a with
  | nan => cases ha
  | signed negative rank =>
      cases b with
      | nan => cases hb
      | signed negative' rank' =>
          -- Different signs have no place but zero in common.
          cases negative <;> cases negative' <;>
            simp only [place?, Option.some.injEq] at ha hb <;>
            simp [Fin.ext_iff] <;> omega

theorem normal_eq_of_place?_eq {a b : Number} (ha : a ≠ nan) (h : a.place? = b.place?) :
    a.normal = b.normal := by
  obtain ⟨p, hp⟩ := exists_place? ha
  by_cases hzero : p = 0
  · subst hzero
    simp [normal, hp, ← h]
  · rw [eq_of_place? hp (h ▸ hp) hzero]

/-- Equality of values is equality, once the sign of zero is dropped. -/
theorem beq_iff_normal_eq {a b : Number} (ha : a ≠ nan) :
    (a == b) = true ↔ a.normal = b.normal := by
  have hrelated : (a == b) = true ↔ Related (· = ·) a b := decide_eq_true_iff
  rw [hrelated]
  constructor
  · intro h
    refine normal_eq_of_place?_eq ha ?_
    unfold Related at h
    split at h
    · simp_all
    · exact h.elim
  · intro h
    obtain ⟨p, hp⟩ := exists_place? ha
    have hb : b.place? = some p := by rw [← place?_normal b, ← h, place?_normal, hp]
    simp [Related, hp, hb]

end Number

namespace Segment

variable {a b c : Segment}

/-! ## Associativity -/

theorem tighterLo_assoc {a b c : Number × Bool} (ha : a.1 ≠ .nan) (hb : b.1 ≠ .nan)
    (hc : c.1 ≠ .nan) : tighterLo (tighterLo a b) c = tighterLo a (tighterLo b c) := by
  obtain ⟨p, hp⟩ := Number.exists_place? ha
  obtain ⟨q, hq⟩ := Number.exists_place? hb
  obtain ⟨r, hr⟩ := Number.exists_place? hc
  have hab := Number.lt_iff_of_place? hp hq
  have hba := Number.lt_iff_of_place? hq hp
  have hbc := Number.lt_iff_of_place? hq hr
  have hcb := Number.lt_iff_of_place? hr hq
  have hac := Number.lt_iff_of_place? hp hr
  have hca := Number.lt_iff_of_place? hr hp
  unfold tighterLo
  grind

theorem tighterHi_assoc {a b c : Number × Bool} (ha : a.1 ≠ .nan) (hb : b.1 ≠ .nan)
    (hc : c.1 ≠ .nan) : tighterHi (tighterHi a b) c = tighterHi a (tighterHi b c) := by
  obtain ⟨p, hp⟩ := Number.exists_place? ha
  obtain ⟨q, hq⟩ := Number.exists_place? hb
  obtain ⟨r, hr⟩ := Number.exists_place? hc
  have hab := Number.lt_iff_of_place? hp hq
  have hba := Number.lt_iff_of_place? hq hp
  have hbc := Number.lt_iff_of_place? hq hr
  have hcb := Number.lt_iff_of_place? hr hq
  have hac := Number.lt_iff_of_place? hp hr
  have hca := Number.lt_iff_of_place? hr hp
  unfold tighterHi
  grind

theorem overlap_assoc (ha : a.Ordered) (hb : b.Ordered) (hc : c.Ordered) :
    (a.overlap b).overlap c = a.overlap (b.overlap c) := by
  have hlo := @tighterLo_assoc (a.interval.lo, a.openness.lo) (b.interval.lo, b.openness.lo)
    (c.interval.lo, c.openness.lo) ha.1 hb.1 hc.1
  have hhi := @tighterHi_assoc (a.interval.hi, a.openness.hi) (b.interval.hi, b.openness.hi)
    (c.interval.hi, c.openness.hi) ha.2 hb.2 hc.2
  simp [overlap, hlo, hhi]

/-- What is empty already stays empty when it is intersected. -/
theorem IsEmpty.overlap_left (ha : a.Ordered) (hb : b.Ordered) (h : a.IsEmpty) :
    (a.overlap b).IsEmpty := by
  rw [isEmpty_iff] at h ⊢
  intro x hx
  exact h x ((overlap_admits_iff ha hb x).mp hx).1

theorem IsEmpty.overlap_right (ha : a.Ordered) (hb : b.Ordered) (h : b.IsEmpty) :
    (a.overlap b).IsEmpty := by
  rw [isEmpty_iff] at h ⊢
  intro x hx
  exact h x ((overlap_admits_iff ha hb x).mp hx).2

theorem intersect?_assoc (ha : a.Ordered) (hb : b.Ordered) (hc : c.Ordered) :
    ((a.intersect? b).bind fun s => s.intersect? c) = (b.intersect? c).bind a.intersect? := by
  have hassoc := overlap_assoc ha hb hc
  have hab := overlap_ordered ha hb
  have hbc := overlap_ordered hb hc
  unfold intersect?
  by_cases hleft : (a.overlap b).IsEmpty
  · have hall : (a.overlap (b.overlap c)).IsEmpty := hassoc ▸ hleft.overlap_left hab hc
    by_cases hright : (b.overlap c).IsEmpty <;> simp [hleft, hright, hall]
  · by_cases hright : (b.overlap c).IsEmpty
    · have hall := hright.overlap_right ha hbc
      simp [hleft, hright, hassoc, hall]
    · simp [hleft, hright, hassoc]

/-- All overlaps of a segment of the first list with one of the second, the first list
leading the order. -/
def overlaps (as bs : List Segment) : List Segment := as.flatMap fun s => bs.filterMap s.intersect?

theorem overlaps_cons (a : Segment) (as bs : List Segment) :
    overlaps (a :: as) bs = bs.filterMap a.intersect? ++ overlaps as bs := rfl

theorem overlaps_assoc {as bs cs : List Segment} (ha : ∀ s ∈ as, s.Ordered)
    (hb : ∀ s ∈ bs, s.Ordered) (hc : ∀ s ∈ cs, s.Ordered) :
    overlaps (overlaps as bs) cs = overlaps as (overlaps bs cs) := by
  unfold overlaps
  rw [List.flatMap_assoc]
  refine List.flatMap_congr fun a hmem => ?_
  rw [List.filterMap_flatMap]
  -- One segment of the first list is left: go through those of the second.
  induction bs with
  | nil => rfl
  | cons b bs ih =>
      rw [List.forall_mem_cons] at hb
      have hfirst : ((a.intersect? b).toList.flatMap fun s => cs.filterMap s.intersect?) =
          (cs.filterMap b.intersect?).filterMap a.intersect? := by
        rw [List.filterMap_filterMap]
        have hassoc : cs.filterMap (fun c => (b.intersect? c).bind a.intersect?) =
            cs.filterMap fun c => (a.intersect? b).bind fun s => s.intersect? c :=
          List.filterMap_congr fun c hcmem =>
            (intersect?_assoc (ha a hmem) hb.1 (hc c hcmem)).symm
        rw [hassoc]
        cases a.intersect? b with
        | none => simp
        | some s => simp
      rw [List.flatMap_cons, ← hfirst, ← ih hb.2]
      cases hab : a.intersect? b with
      | none => simp [hab]
      | some s => simp [hab]

/-! ## Commutativity -/

/-- The segment with the sign of zero dropped from its bounds. -/
def normal (segment : Segment) : Segment :=
  ⟨segment.openness, ⟨segment.interval.lo.normal, segment.interval.hi.normal⟩⟩

@[simp] theorem admits_normal (segment : Segment) (x : EReal) :
    segment.normal.Admits x ↔ segment.Admits x := by
  simp [Admits, PastLo, BeforeHi, normal]

@[simp] theorem isEmpty_normal (segment : Segment) :
    segment.normal.IsEmpty ↔ segment.IsEmpty := by
  simp [IsEmpty, Interval.isPoint, normal]

theorem tighterLo_normal (a b : Number × Bool) :
    tighterLo (a.1.normal, a.2) (b.1.normal, b.2) =
      ((tighterLo a b).1.normal, (tighterLo a b).2) := by
  simp only [tighterLo, Number.normal_lt_normal]
  split
  · rfl
  · split <;> rfl

theorem tighterHi_normal (a b : Number × Bool) :
    tighterHi (a.1.normal, a.2) (b.1.normal, b.2) =
      ((tighterHi a b).1.normal, (tighterHi a b).2) := by
  simp only [tighterHi, Number.normal_lt_normal]
  split
  · rfl
  · split <;> rfl

theorem overlap_normal (a b : Segment) : a.normal.overlap b.normal = (a.overlap b).normal := by
  have hlo := tighterLo_normal (a.interval.lo, a.openness.lo) (b.interval.lo, b.openness.lo)
  have hhi := tighterHi_normal (a.interval.hi, a.openness.hi) (b.interval.hi, b.openness.hi)
  simp only [overlap, normal, hlo, hhi]

/-- Intersecting looks at the values of bounds only. -/
theorem intersect?_normal (a b : Segment) :
    a.normal.intersect? b.normal = (a.intersect? b).map normal := by
  unfold intersect?
  rw [overlap_normal]
  by_cases h : (a.overlap b).IsEmpty <;> simp [h]

theorem tighterLo_comm {a b : Number × Bool} (ha : a.1 ≠ .nan) (hb : b.1 ≠ .nan) :
    ((tighterLo a b).1.normal, (tighterLo a b).2) =
      ((tighterLo b a).1.normal, (tighterLo b a).2) := by
  obtain ⟨p, hp⟩ := Number.exists_place? ha
  obtain ⟨q, hq⟩ := Number.exists_place? hb
  have hab := Number.lt_iff_of_place? hp hq
  have hba := Number.lt_iff_of_place? hq hp
  have heq (h : p = q) : a.1.normal = b.1.normal :=
    Number.normal_eq_of_place?_eq ha (by rw [hp, hq, h])
  unfold tighterLo
  grind

theorem tighterHi_comm {a b : Number × Bool} (ha : a.1 ≠ .nan) (hb : b.1 ≠ .nan) :
    ((tighterHi a b).1.normal, (tighterHi a b).2) =
      ((tighterHi b a).1.normal, (tighterHi b a).2) := by
  obtain ⟨p, hp⟩ := Number.exists_place? ha
  obtain ⟨q, hq⟩ := Number.exists_place? hb
  have hab := Number.lt_iff_of_place? hp hq
  have hba := Number.lt_iff_of_place? hq hp
  have heq (h : p = q) : a.1.normal = b.1.normal :=
    Number.normal_eq_of_place?_eq ha (by rw [hp, hq, h])
  unfold tighterHi
  grind

theorem overlap_comm (ha : a.Ordered) (hb : b.Ordered) :
    (a.overlap b).normal = (b.overlap a).normal := by
  have hlo := @tighterLo_comm (a.interval.lo, a.openness.lo) (b.interval.lo, b.openness.lo)
    ha.1 hb.1
  have hhi := @tighterHi_comm (a.interval.hi, a.openness.hi) (b.interval.hi, b.openness.hi)
    ha.2 hb.2
  rw [Prod.mk.injEq] at hlo hhi
  simp only [overlap, normal, hlo, hhi]

theorem intersect?_comm (ha : a.Ordered) (hb : b.Ordered) :
    (a.intersect? b).map normal = (b.intersect? a).map normal := by
  have hcomm := overlap_comm ha hb
  have hempty : (a.overlap b).IsEmpty ↔ (b.overlap a).IsEmpty := by
    rw [← isEmpty_normal, hcomm, isEmpty_normal]
  unfold intersect?
  by_cases h : (b.overlap a).IsEmpty
  · simp [h, hempty.mpr h]
  · simp [h, mt hempty.mp h, hcomm]

/-- Every point of the first segment lies before every point of the second. -/
def Before (a b : Segment) : Prop := ∀ x y, a.Admits x → b.Admits y → x < y

theorem mem_overlaps {as bs : List Segment} {c : Segment} :
    c ∈ overlaps as bs ↔ ∃ s ∈ as, ∃ t ∈ bs, s.intersect? t = some c := by
  simp [overlaps]

/-- Overlaps of segments in order are in order. -/
theorem pairwise_before_overlaps {as bs : List Segment} (ha : ∀ s ∈ as, s.Ordered)
    (hb : ∀ s ∈ bs, s.Ordered) (has : as.Pairwise Before) (hbs : bs.Pairwise Before) :
    (overlaps as bs).Pairwise Before := by
  have hadmits {s t c : Segment} (hs : s.Ordered) (ht : t.Ordered) (h : s.intersect? t = some c)
      {x : EReal} (hx : c.Admits x) : s.Admits x ∧ t.Admits x :=
    (exists_intersect?_iff hs ht x).mp ⟨c, h, hx⟩
  rw [overlaps, List.pairwise_flatMap]
  constructor
  · intro s hs
    rw [List.pairwise_filterMap]
    refine hbs.imp_of_mem fun {t t'} ht ht' hbefore c hc c' hc' x y hx hy => ?_
    exact hbefore x y (hadmits (ha s hs) (hb t ht) hc hx).2 (hadmits (ha s hs) (hb t' ht') hc' hy).2
  · refine has.imp_of_mem fun {s s'} hs hs' hbefore c hc c' hc' x y hx hy => ?_
    obtain ⟨t, ht, hst⟩ := List.mem_filterMap.mp hc
    obtain ⟨t', ht', hst'⟩ := List.mem_filterMap.mp hc'
    exact hbefore x y (hadmits (ha s hs) (hb t ht) hst hx).1
      (hadmits (ha s' hs') (hb t' ht') hst' hy).1

/-- Segments in order, none of them empty, are determined by which they are. -/
theorem eq_of_pairwise_before {as bs : List Segment} (has : as.Pairwise Before)
    (hbs : bs.Pairwise Before) (hsolid : ∀ s ∈ as, ¬ s.IsEmpty) (hmem : ∀ s, s ∈ as ↔ s ∈ bs) :
    as = bs := by
  have hirrefl {s : Segment} (hs : s ∈ as) : ¬ s.Before s := by
    intro hbefore
    obtain ⟨x, hx⟩ := not_forall_not.mp (mt (isEmpty_iff s).mpr (hsolid s hs))
    exact lt_irrefl x (hbefore x x hx hx)
  have hnodup : as.Nodup := has.imp_of_mem fun {s t} hs _ hbefore heq => by
    subst heq
    exact hirrefl hs hbefore
  have hnodup' : bs.Nodup := hbs.imp_of_mem fun {s t} hs _ hbefore heq => by
    subst heq
    exact hirrefl ((hmem s).mpr hs) hbefore
  refine List.Perm.eq_of_pairwise ?_ has hbs ((List.perm_ext_iff_of_nodup hnodup hnodup').mpr hmem)
  intro s t hs ht hst hts
  -- Two segments, each before the other, would have points before themselves.
  obtain ⟨x, hx⟩ := not_forall_not.mp (mt (isEmpty_iff s).mpr (hsolid s hs))
  obtain ⟨y, hy⟩ := not_forall_not.mp (mt (isEmpty_iff t).mpr (hsolid t ((hmem t).mpr ht)))
  exact absurd (hst x y hx hy) (lt_asymm (hts y x hy hx))

theorem overlaps_comm {as bs : List Segment} (ha : ∀ s ∈ as, s.Ordered)
    (hb : ∀ s ∈ bs, s.Ordered) (has : as.Pairwise Before) (hbs : bs.Pairwise Before) :
    (overlaps as bs).map normal = (overlaps bs as).map normal := by
  have hbefore {cs : List Segment} (hcs : cs.Pairwise Before) : (cs.map normal).Pairwise Before :=
    List.pairwise_map.mpr (hcs.imp fun h x y hx hy =>
      h x y ((admits_normal _ x).mp hx) ((admits_normal _ y).mp hy))
  have hsub {as bs : List Segment} (ha : ∀ s ∈ as, s.Ordered) (hb : ∀ s ∈ bs, s.Ordered) :
      ∀ c ∈ (overlaps as bs).map normal, c ∈ (overlaps bs as).map normal := by
    intro image himage
    obtain ⟨c, hc, rfl⟩ := List.mem_map.mp himage
    obtain ⟨s, hs, t, ht, hst⟩ := mem_overlaps.mp hc
    have hcomm := intersect?_comm (ha s hs) (hb t ht)
    rw [hst, Option.map_some, eq_comm, Option.map_eq_some_iff] at hcomm
    obtain ⟨c', hts, hc'⟩ := hcomm
    exact List.mem_map.mpr ⟨c', mem_overlaps.mpr ⟨t, ht, s, hs, hts⟩, hc'⟩
  refine eq_of_pairwise_before (hbefore (pairwise_before_overlaps ha hb has hbs))
    (hbefore (pairwise_before_overlaps hb ha hbs has)) ?_ fun c => ⟨hsub ha hb c, hsub hb ha c⟩
  intro image himage
  obtain ⟨c, hc, rfl⟩ := List.mem_map.mp himage
  obtain ⟨s, -, t, -, hst⟩ := mem_overlaps.mp hc
  obtain ⟨rfl, hsolid⟩ := intersect?_eq_some_iff.mp hst
  rwa [isEmpty_normal]

end Segment

/-! ## Regions -/

namespace Region

theorem intersect?_eq (a b : Region) :
    a.intersect? b = ofSegments? (Segment.overlaps a.segments b.segments) := rfl

theorem ofSegments?_bind_left (as bs : List Segment) :
    ((ofSegments? as).bind fun region => ofSegments? (Segment.overlaps region.segments bs)) =
      ofSegments? (Segment.overlaps as bs) := by
  cases as <;> rfl

theorem ofSegments?_bind_right (as bs : List Segment) :
    ((ofSegments? bs).bind fun region => ofSegments? (Segment.overlaps as region.segments)) =
      ofSegments? (Segment.overlaps as bs) := by
  cases bs with
  | nil =>
      have hnone : Segment.overlaps as [] = [] := by simp [Segment.overlaps]
      rw [hnone]
      rfl
  | cons b bs => rfl

/-- **Intersecting regions is associative**, with the same segments in the same order. -/
theorem intersect?_assoc {a b c : Region} (ha : a.Ordered) (hb : b.Ordered) (hc : c.Ordered) :
    ((a.intersect? b).bind fun region => region.intersect? c) =
      (b.intersect? c).bind a.intersect? := by
  calc
    ((a.intersect? b).bind fun region => region.intersect? c)
        = ofSegments? (Segment.overlaps (Segment.overlaps a.segments b.segments) c.segments) :=
          ofSegments?_bind_left _ _
    _ = ofSegments? (Segment.overlaps a.segments (Segment.overlaps b.segments c.segments)) := by
          rw [Segment.overlaps_assoc ha hb hc]
    _ = (b.intersect? c).bind a.intersect? := (ofSegments?_bind_right _ _).symm

/-- The region with the sign of zero dropped from all bounds. -/
def normal (region : Region) : Region := ⟨region.first.normal, region.others.map Segment.normal⟩

@[simp] theorem segments_normal (region : Region) :
    region.normal.segments = region.segments.map Segment.normal := rfl

theorem ofSegments?_map_normal (segments : List Segment) :
    ofSegments? (segments.map Segment.normal) = (ofSegments? segments).map normal := by
  cases segments <;> rfl

/-- Intersecting looks at the values of bounds only. -/
theorem intersect?_normal (a b : Region) :
    a.normal.intersect? b.normal = (a.intersect? b).map normal := by
  rw [intersect?_eq, intersect?_eq, ← ofSegments?_map_normal]
  congr 1
  simp only [Segment.overlaps, segments_normal, List.flatMap_map, List.map_flatMap,
    List.map_filterMap, List.filterMap_map]
  refine List.flatMap_congr fun s _ => List.filterMap_congr fun t _ => ?_
  exact Segment.intersect?_normal s t

/-- The segments are in order, apart from each other. -/
def Sorted (region : Region) : Prop := region.segments.Pairwise Segment.Before

theorem Sorted.intersect? {a b c : Region} (ha : a.Ordered) (hb : b.Ordered) (has : a.Sorted)
    (hbs : b.Sorted) (h : a.intersect? b = some c) : c.Sorted := by
  rw [Sorted, ofSegments?_eq_some_iff.mp h]
  exact Segment.pairwise_before_overlaps ha hb has hbs

/-- **Intersecting sorted regions is commutative**, up to the signs of zeros. -/
theorem intersect?_comm {a b : Region} (ha : a.Ordered) (hb : b.Ordered) (has : a.Sorted)
    (hbs : b.Sorted) : (a.intersect? b).map normal = (b.intersect? a).map normal := by
  rw [intersect?_eq, intersect?_eq, ← ofSegments?_map_normal, ← ofSegments?_map_normal,
    Segment.overlaps_comm ha hb has hbs]

/-- Equality of values is equality, once the signs of zeros are dropped. -/
theorem beq_iff_normal_eq {a b : Region} (ha : a.Ordered) :
    (a == b) = true ↔ a.normal = b.normal := by
  have hsegment {s t : Segment} (hs : s.Ordered) : (s == t) = true ↔ s.normal = t.normal := by
    change (decide (s.openness = t.openness) && (s.interval.lo == t.interval.lo &&
      s.interval.hi == t.interval.hi)) = true ↔ _
    simp [Number.beq_iff_normal_eq hs.1, Number.beq_iff_normal_eq hs.2, Segment.normal]
  have hsegments : ∀ {as bs : List Segment}, (∀ s ∈ as, s.Ordered) →
      ((as == bs) = true ↔ as.map Segment.normal = bs.map Segment.normal) := by
    intro as
    induction as with
    | nil => intro bs _; cases bs <;> simp
    | cons s as ih =>
        intro bs has
        rw [List.forall_mem_cons] at has
        cases bs with
        | nil => simp
        | cons t bs => simp [hsegment has.1, ih has.2]
  change (a.segments == b.segments) = true ↔ _
  rw [hsegments ha]
  simp [normal, segments]

/-- The region of one segment has nothing to be out of order. -/
theorem sorted_single (interval : Interval) (openness : Openness) :
    (single interval openness).Sorted :=
  List.pairwise_singleton _ _

/-- The half-line below a number lies before the one above it. -/
theorem sorted_excluding (constant : Number) : (excluding constant).Sorted := by
  refine List.pairwise_pair.mpr ?_
  rintro x y ⟨-, bound, hbound, hx⟩ ⟨⟨bound', hbound', hy⟩, -⟩
  obtain rfl : bound = bound' := Option.some_inj.mp (hbound.symm.trans hbound')
  exact lt_trans hx hy

end Region
end DecisionTuples
