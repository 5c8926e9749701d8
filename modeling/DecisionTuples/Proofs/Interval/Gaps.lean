import DecisionTuples.Proofs.Interval.Intersection

/-!
# Solutions of one relation, intersected

Regions that are the solutions of one and the same relation keep their shape when they are
intersected, with one exception.

* Solutions of `x < v`, of `x = v` and so on intersect to the solutions of the relation with
  one of the two numbers (`Region.solutions_intersect?`).
* Regions that exclude one number each intersect to the *gaps* between the numbers that are
  excluded (`Region.exists_gaps`): the open segments from negative infinity to the least
  of them, between neighbours, and from the greatest of them to infinity.  Numbers of equal
  value are excluded once, and excluding an infinite number changes nothing, since both
  infinite ends are left out anyway.
-/

namespace DecisionTuples

/-! ## Ends that are left out alike -/

/-- The greater lower bound and the smaller upper bound, those of the first interval if two
bounds are equal values. -/
def Interval.meet (i j : Interval) : Interval :=
  ⟨if i.lo < j.lo then j.lo else i.lo, if j.hi < i.hi then j.hi else i.hi⟩

namespace Segment

/-- Of two lower ends that are left out alike, or both kept, the greater is tighter. -/
theorem tighterLo_alike (v w : Number) (leftOut : Bool) :
    tighterLo (v, leftOut) (w, leftOut) = (if v < w then w else v, leftOut) := by
  unfold tighterLo
  by_cases hwv : w < v
  · simp [hwv, Number.lt_asymm hwv]
  · by_cases hvw : v < w <;> simp [hwv, hvw]

theorem tighterHi_alike (v w : Number) (leftOut : Bool) :
    tighterHi (v, leftOut) (w, leftOut) = (if w < v then w else v, leftOut) := by
  unfold tighterHi
  by_cases hvw : v < w
  · simp [hvw, Number.lt_asymm hvw]
  · by_cases hwv : w < v <;> simp [hvw, hwv]

theorem overlap_alike (openness : Openness) (i j : Interval) :
    overlap ⟨openness, i⟩ ⟨openness, j⟩ = ⟨openness, i.meet j⟩ := by
  simp only [overlap, tighterLo_alike, tighterHi_alike, Interval.meet]

/-! ## Gaps between excluded numbers -/

/-- The points between two bounds, the bounds left out. -/
def between (lo hi : Number) : Segment := ⟨.opened, ⟨lo, hi⟩⟩

variable {a b c d lo hi : Number}

theorem isEmpty_between_iff (hlo : lo ≠ .nan) (hhi : hi ≠ .nan) :
    (between lo hi).IsEmpty ↔ ¬ lo < hi := by
  obtain ⟨p, hp⟩ := Number.exists_place? hlo
  obtain ⟨q, hq⟩ := Number.exists_place? hhi
  have hempty : (between lo hi).IsEmpty ↔ q < p ∨ p = q := by
    simp [IsEmpty, between, Openness.opened, Interval.isPoint, Number.isNaN_eq_false hlo,
      Number.isNaN_eq_false hhi, Number.lt_iff_of_place? hq hp, Number.beq_iff_of_place? hp hq]
  rw [hempty, Number.lt_iff_of_place? hp hq]
  omega

theorem not_isEmpty_between (h : lo < hi) : ¬ (between lo hi).IsEmpty := by
  obtain ⟨hlo, hhi⟩ := Number.ne_nan_of_lt h
  rw [isEmpty_between_iff hlo hhi, not_not]
  exact h

theorem intersect?_between (ha : a ≠ .nan) (hb : b ≠ .nan) (hc : c ≠ .nan) (hd : d ≠ .nan) :
    (between a b).intersect? (between c d) =
      if (if a < c then c else a) < (if d < b then d else b) then
        some (between (if a < c then c else a) (if d < b then d else b)) else none := by
  have hlo : (if a < c then c else a) ≠ .nan := by split <;> assumption
  have hhi : (if d < b then d else b) ≠ .nan := by split <;> assumption
  have hoverlap : (between a b).overlap (between c d) =
      between (if a < c then c else a) (if d < b then d else b) := overlap_alike _ ⟨a, b⟩ ⟨c, d⟩
  by_cases h : (if a < c then c else a) < (if d < b then d else b)
  · simp [intersect?, hoverlap, isEmpty_between_iff hlo hhi, h]
  · simp [intersect?, hoverlap, isEmpty_between_iff hlo hhi, h]

/-- Excluding a number cuts the segment in which it lies in two, and leaves others as they
are. -/
theorem filterMap_excluding (h : lo < hi) (hc : c ≠ .nan) :
    (Region.excluding c).segments.filterMap (between lo hi).intersect? =
      if lo < c ∧ c < hi then [between lo c, between c hi] else [between lo hi] := by
  obtain ⟨hlo, hhi⟩ := Number.ne_nan_of_lt h
  have hbottom : Number.negativeInfinity ≠ .nan := Number.ofRank_ne_nan _ _
  have htop : Number.infinity ≠ .nan := Number.ofRank_ne_nan _ _
  have hbelow : (between lo hi).intersect? (between .negativeInfinity c) =
      if lo < (if c < hi then c else hi) then some (between lo (if c < hi then c else hi))
      else none := by
    rw [intersect?_between hlo hhi hbottom hc, if_neg (Number.not_lt_negativeInfinity lo)]
  have habove : (between lo hi).intersect? (between c .infinity) =
      if (if lo < c then c else lo) < hi then some (between (if lo < c then c else lo) hi)
      else none := by
    rw [intersect?_between hlo hhi hc htop, if_neg (Number.not_infinity_lt hi)]
  have hsegments : (Region.excluding c).segments =
      [between .negativeInfinity c, between c .infinity] := rfl
  rw [hsegments, List.filterMap_cons, List.filterMap_cons, hbelow, habove]
  by_cases hlc : lo < c
  · by_cases hch : c < hi
    · simp [hlc, hch]
    · simp [hlc, hch, h]
  · have hch : c < hi := Number.lt_of_not_lt hc hlc h
    simp [hlc, hch, h]

/-- The open segments from a lower bound to the first of several numbers, between
neighbours, and from the last number to infinity. -/
def gapsFrom : Number → List Number → List Segment
  | lo, [] => [between lo .infinity]
  | lo, v :: vs => between lo v :: gapsFrom v vs

/-- The open segments that are left of the line when several numbers, given in increasing
order, are excluded. -/
def gaps (excluded : List Number) : List Segment := gapsFrom .negativeInfinity excluded

/-- Excluding one number leaves the two half-lines beside it. -/
example (v : Number) : gaps [v] = (Region.excluding v).segments := rfl

/-- The numbers increase, from above the lower bound to below infinity. -/
def Rising : Number → List Number → Prop
  | lo, [] => lo < .infinity
  | lo, v :: vs => lo < v ∧ Rising v vs

theorem rising_iff : ∀ {vs : List Number} {lo : Number}, Rising lo vs ↔
    lo < .infinity ∧ vs.Pairwise (· < ·) ∧ ∀ v ∈ vs, lo < v ∧ v < .infinity
  | [], lo => by simp [Rising]
  | v :: vs, lo => by
      rw [Rising, rising_iff, List.pairwise_cons, List.forall_mem_cons]
      constructor
      · rintro ⟨hlo, htop, hvs, hall⟩
        exact ⟨Number.lt_trans hlo htop, ⟨fun w hw => (hall w hw).1, hvs⟩, ⟨hlo, htop⟩,
          fun w hw => ⟨Number.lt_trans hlo (hall w hw).1, (hall w hw).2⟩⟩
      · rintro ⟨-, ⟨hfirst, hvs⟩, ⟨hlo, htop⟩, hall⟩
        exact ⟨hlo, htop, hvs, fun w hw => ⟨hfirst w hw, (hall w hw).2⟩⟩

/-- The numbers with one more among them, where it lies strictly between two
neighbours. -/
def excludeFrom (c : Number) : Number → List Number → List Number
  | lo, [] => if lo < c ∧ c < .infinity then [c] else []
  | lo, v :: vs => (if lo < c ∧ c < v then [c] else []) ++ v :: excludeFrom c v vs

/-- Intersecting gaps with all numbers but one excludes that number as well. -/
theorem overlaps_gapsFrom (hc : c ≠ .nan) : ∀ {vs : List Number} {lo : Number}, Rising lo vs →
    overlaps (gapsFrom lo vs) (Region.excluding c).segments = gapsFrom lo (excludeFrom c lo vs)
  | [], lo, h => by
      rw [gapsFrom, excludeFrom, overlaps, List.flatMap_singleton, filterMap_excluding h hc]
      split <;> rfl
  | v :: vs, lo, ⟨hlo, hvs⟩ => by
      -- The first gap is cut or not; the others begin at the number behind it.
      rw [gapsFrom, excludeFrom, overlaps_cons, filterMap_excluding hlo hc,
        overlaps_gapsFrom hc hvs]
      split <;> rfl

theorem Rising.excludeFrom (c : Number) : ∀ {vs : List Number} {lo : Number}, Rising lo vs →
    Rising lo (excludeFrom c lo vs)
  | [], lo, h => by
      rw [Segment.excludeFrom]
      split
      · next hbetween => exact hbetween
      · exact h
  | v :: vs, lo, ⟨hlo, hvs⟩ => by
      rw [Segment.excludeFrom]
      split
      · next hbetween => exact ⟨hbetween.1, hbetween.2, hvs.excludeFrom c⟩
      · exact ⟨hlo, hvs.excludeFrom c⟩

theorem mem_of_mem_excludeFrom {w : Number} : ∀ {vs : List Number} {lo : Number},
    w ∈ excludeFrom c lo vs → w ∈ vs ∨ w = c
  | [], lo, h => by
      rw [excludeFrom] at h
      split at h <;> simp_all
  | v :: vs, lo, h => by
      rw [excludeFrom, List.mem_append, List.mem_cons] at h
      rcases h with h | rfl | h
      · split at h <;> simp_all
      · exact .inl List.mem_cons_self
      · exact (mem_of_mem_excludeFrom h).imp_left (List.mem_cons_of_mem _)

theorem mem_excludeFrom_of_mem {w : Number} : ∀ {vs : List Number} {lo : Number}, w ∈ vs →
    w ∈ excludeFrom c lo vs
  | v :: vs, lo, h => by
      rw [excludeFrom, List.mem_append, List.mem_cons]
      rcases List.mem_cons.mp h with rfl | h
      · exact .inr (.inl rfl)
      · exact .inr (.inr (mem_excludeFrom_of_mem h))

/-- A number above the lower bound is excluded, itself or by its value. -/
theorem exists_mem_excludeFrom (htop : c < .infinity) : ∀ {vs : List Number} {lo : Number},
    Rising lo vs → lo < c → ∃ w ∈ excludeFrom c lo vs, (w == c) = true
  | [], lo, _, hlo => by
      rw [excludeFrom, if_pos ⟨hlo, htop⟩]
      exact ⟨c, List.mem_singleton_self c, Number.beq_self (Number.ne_nan_of_lt htop).1⟩
  | v :: vs, lo, ⟨hlov, hvs⟩, hlo => by
      have hc := (Number.ne_nan_of_lt htop).1
      rw [excludeFrom]
      rcases Number.lt_trichotomy (Number.ne_nan_of_lt hlov).2 hc with hvc | heq | hcv
      · obtain ⟨w, hw, hwc⟩ := exists_mem_excludeFrom htop hvs hvc
        exact ⟨w, List.mem_append_right _ (List.mem_cons_of_mem _ hw), hwc⟩
      · exact ⟨v, List.mem_append_right _ List.mem_cons_self, heq⟩
      · rw [if_pos ⟨hlo, hcv⟩]
        exact ⟨c, List.mem_cons_self, Number.beq_self hc⟩

/-- Empty segments have no part in overlaps. -/
theorem overlaps_filter {as bs : List Segment} (ha : ∀ s ∈ as, s.Ordered)
    (hb : ∀ s ∈ bs, s.Ordered) :
    overlaps (as.filter fun s => ¬ s.IsEmpty) bs = overlaps as bs := by
  induction as with
  | nil => rfl
  | cons a as ih =>
      obtain ⟨hfirst, hrest⟩ := List.forall_mem_cons.mp ha
      rw [overlaps_cons, ← ih hrest]
      by_cases hempty : a.IsEmpty
      · have hnone : bs.filterMap a.intersect? = [] := by
          refine List.filterMap_eq_nil_iff.mpr fun b hbmem => ?_
          exact if_pos (hempty.overlap_left hfirst (hb b hbmem))
        rw [List.filter_cons_of_neg (by simpa using hempty), hnone, List.nil_append]
      · rw [List.filter_cons_of_pos (by simpa using hempty)]
        rfl

end Segment

/-- The numbers that several inequalities exclude from the finite points: the finite ones
among their constants, in increasing order and each value once. -/
structure Excluded (constants excluded : List Number) : Prop where
  increasing : excluded.Pairwise (· < ·)
  finite : ∀ v ∈ excluded, v.isFinite = true
  mem : ∀ v ∈ excluded, v ∈ constants
  complete : ∀ constant ∈ constants, constant.isFinite = true →
    ∃ v ∈ excluded, (v == constant) = true

namespace Excluded

variable {constants excluded : List Number} {c : Number}

theorem nil : Excluded [] [] := ⟨.nil, nofun, nofun, nofun⟩

theorem rising (h : Excluded constants excluded) :
    Segment.Rising .negativeInfinity excluded := by
  refine Segment.rising_iff.mpr ⟨Number.negativeInfinity_lt_infinity, h.increasing, ?_⟩
  exact fun v hv => Number.isFinite_iff.mp (h.finite v hv)

/-- One more inequality excludes one more number, if its constant is finite and new. -/
theorem extend (h : Excluded constants excluded) (c : Number) :
    Excluded (constants ++ [c]) (Segment.excludeFrom c .negativeInfinity excluded) := by
  obtain ⟨-, hincreasing, hbounds⟩ := Segment.rising_iff.mp (h.rising.excludeFrom c)
  refine ⟨hincreasing, fun v hv => Number.isFinite_iff.mpr (hbounds v hv), fun v hv => ?_, ?_⟩
  · rcases Segment.mem_of_mem_excludeFrom hv with hv | rfl
    · exact List.mem_append_left _ (h.mem v hv)
    · exact List.mem_append_right _ (List.mem_singleton_self v)
  · intro constant hconstant hfinite
    rcases List.mem_append.mp hconstant with hconstant | hconstant
    · obtain ⟨v, hv, heq⟩ := h.complete constant hconstant hfinite
      exact ⟨v, Segment.mem_excludeFrom_of_mem hv, heq⟩
    · obtain rfl := List.mem_singleton.mp hconstant
      obtain ⟨hbottom, htop⟩ := Number.isFinite_iff.mp hfinite
      exact Segment.exists_mem_excludeFrom htop h.rising hbottom

end Excluded

namespace Region

variable {region next : Region} {constants excluded : List Number} {c : Number}

/-- The segments that are not empty. -/
def solidSegments (region : Region) : List Segment :=
  region.segments.filter fun segment => ¬ segment.IsEmpty

theorem Solid.solidSegments_eq (h : region.Solid) : region.solidSegments = region.segments :=
  List.filter_eq_self.mpr fun segment hsegment => decide_eq_true (h segment hsegment)

theorem solidSegments_excluding (hc : c ≠ .nan) :
    (excluding c).solidSegments = Segment.gaps (Segment.excludeFrom c .negativeInfinity []) := by
  by_cases hfinite : c.isFinite = true
  · obtain ⟨hbottom, htop⟩ := Number.isFinite_iff.mp hfinite
    have hsegments : (excluding c).segments =
        [Segment.between .negativeInfinity c, Segment.between c .infinity] := rfl
    rw [Segment.excludeFrom, if_pos ⟨hbottom, htop⟩, solidSegments, hsegments]
    simp [Segment.not_isEmpty_between hbottom, Segment.not_isEmpty_between htop, Segment.gaps,
      Segment.gapsFrom]
  · rcases Number.eq_of_not_isFinite hfinite with rfl | rfl | rfl
    · exact absurd rfl hc
    · decide +kernel
    · decide +kernel

/-- Excluding one more number from gaps leaves gaps. -/
theorem segments_of_intersect?_excluding (hregion : region.Ordered) (hc : c ≠ .nan)
    (hexcluded : Excluded constants excluded)
    (hsegments : region.solidSegments = Segment.gaps excluded)
    (h : region.intersect? (excluding c) = some next) :
    next.segments = Segment.gaps (Segment.excludeFrom c .negativeInfinity excluded) := by
  have hnext : next.segments = Segment.overlaps region.segments (excluding c).segments :=
    ofSegments?_eq_some_iff.mp h
  rw [hnext, ← Segment.overlaps_filter hregion (ordered_excluding hc)]
  change Segment.overlaps region.solidSegments _ = _
  rw [hsegments]
  exact Segment.overlaps_gapsFrom hc hexcluded.rising

theorem gaps_of_foldlM : ∀ {more constants excluded : List Number} {start region : Region},
    start.Ordered → Excluded constants excluded → start.solidSegments = Segment.gaps excluded →
    (∀ c ∈ more, c ≠ .nan) → (more.map excluding).foldlM intersect? start = some region →
      ∃ excluded', Excluded (constants ++ more) excluded' ∧
        region.solidSegments = Segment.gaps excluded'
  | [], constants, excluded, start, region, _, hexcluded, hsegments, _, h => by
      cases h
      exact ⟨excluded, by rwa [List.append_nil], hsegments⟩
  | c :: more, constants, excluded, start, region, hstart, hexcluded, hsegments, hmore, h => by
      obtain ⟨hc, hmore⟩ := List.forall_mem_cons.mp hmore
      obtain ⟨next, hnext, hrest⟩ := Option.bind_eq_some_iff.mp h
      have hordered : next.Ordered := hstart.intersect? (ordered_excluding hc) hnext
      have hgaps := segments_of_intersect?_excluding hstart hc hexcluded hsegments hnext
      rw [← (solid_of_intersect? hnext).solidSegments_eq] at hgaps
      have hfound := gaps_of_foldlM hordered (hexcluded.extend c) hgaps hmore hrest
      rwa [List.append_assoc] at hfound

/-- What is left of the line after excluding several numbers, one after the other, is the
gaps between them. -/
theorem exists_gaps {first : Number} {more : List Number} (hfirst : first ≠ .nan)
    (hmore : ∀ c ∈ more, c ≠ .nan)
    (h : (more.map excluding).foldlM intersect? (excluding first) = some region) :
    ∃ excluded, Excluded (first :: more) excluded ∧
      region.solidSegments = Segment.gaps excluded :=
  gaps_of_foldlM (ordered_excluding hfirst) (Excluded.nil.extend first)
    (solidSegments_excluding hfirst) hmore h

/-! ## Other relations -/

theorem single_intersect? {openness : Openness} {i j : Interval}
    (h : (single i openness).intersect? (single j openness) = some region) :
    region = single (i.meet j) openness ∧ ¬ Segment.IsEmpty ⟨openness, i.meet j⟩ := by
  obtain ⟨first, others⟩ := region
  have hsegments : first :: others =
      (Segment.intersect? ⟨openness, i⟩ ⟨openness, j⟩).toList := by
    refine (ofSegments?_eq_some_iff.mp h).trans ?_
    cases hij : Segment.intersect? ⟨openness, i⟩ ⟨openness, j⟩ <;> simp [hij]
  cases hij : Segment.intersect? ⟨openness, i⟩ ⟨openness, j⟩ with
  | none =>
      rw [hij] at hsegments
      cases hsegments
  | some common =>
      rw [hij] at hsegments
      cases hsegments
      obtain ⟨rfl, hsolid⟩ := Segment.intersect?_eq_some_iff.mp hij
      rw [Segment.overlap_alike] at hsolid ⊢
      exact ⟨rfl, hsolid⟩

/-- The common solutions of one relation with two numbers are those with one of the two. -/
theorem solutions_intersect? {comparison : Comparison} (hne : comparison ≠ .notEqual)
    {v w : Number}
    (h : (solutions comparison v).intersect? (solutions comparison w) = some region) :
    region = solutions comparison v ∨ region = solutions comparison w := by
  have hbelow : (Interval.below v).meet (.below w) = .below v ∨
      (Interval.below v).meet (.below w) = .below w := by
    by_cases hwv : w < v <;> simp [Interval.meet, Interval.below, Number.lt_irrefl, hwv]
  have habove : (Interval.above v).meet (.above w) = .above v ∨
      (Interval.above v).meet (.above w) = .above w := by
    by_cases hvw : v < w <;> simp [Interval.meet, Interval.above, Number.lt_irrefl, hvw]
  cases comparison with
  | less =>
      obtain ⟨rfl, -⟩ := single_intersect? h
      exact hbelow.imp (congrArg (single · _)) (congrArg (single · _))
  | atMost =>
      obtain ⟨rfl, -⟩ := single_intersect? h
      exact hbelow.imp (congrArg (single · _)) (congrArg (single · _))
  | greater =>
      obtain ⟨rfl, -⟩ := single_intersect? h
      exact habove.imp (congrArg (single · _)) (congrArg (single · _))
  | atLeast =>
      obtain ⟨rfl, -⟩ := single_intersect? h
      exact habove.imp (congrArg (single · _)) (congrArg (single · _))
  | equal =>
      obtain ⟨rfl, hsolid⟩ := single_intersect? h
      -- Two different points have nothing in common.
      have hvw : ¬ v < w := by
        intro hvw
        refine hsolid (.inr (.inr (.inl ?_)))
        simp [Interval.meet, Interval.point, hvw, Number.lt_asymm hvw]
      have hwv : ¬ w < v := by
        intro hwv
        refine hsolid (.inr (.inr (.inl ?_)))
        simp [Interval.meet, Interval.point, hwv, Number.lt_asymm hwv]
      simp [solutions, Interval.meet, Interval.point, hvw, hwv]
  | notEqual => exact absurd rfl hne

/-- Solutions of one relation, intersected one after the other, are those with one of the
numbers. -/
theorem solutions_of_foldlM {comparison : Comparison} (hne : comparison ≠ .notEqual) :
    ∀ {more : List Number} {first : Number},
      (more.map (solutions comparison)).foldlM intersect? (solutions comparison first) =
        some region → ∃ v ∈ first :: more, region = solutions comparison v
  | [], first, h => by
      cases h
      exact ⟨first, List.mem_singleton_self first, rfl⟩
  | second :: more, first, h => by
      obtain ⟨next, hnext, hrest⟩ := Option.bind_eq_some_iff.mp h
      rcases solutions_intersect? hne hnext with rfl | rfl
      · obtain ⟨v, hv, rfl⟩ := solutions_of_foldlM hne hrest
        rcases List.mem_cons.mp hv with rfl | hv
        · exact ⟨v, List.mem_cons_self, rfl⟩
        · exact ⟨v, List.mem_cons_of_mem _ (List.mem_cons_of_mem _ hv), rfl⟩
      · obtain ⟨v, hv, rfl⟩ := solutions_of_foldlM hne hrest
        exact ⟨v, List.mem_cons_of_mem _ hv, rfl⟩

end Region

end DecisionTuples
