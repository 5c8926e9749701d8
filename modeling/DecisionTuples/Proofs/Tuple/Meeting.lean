import DecisionTuples.Proofs.Tuple.Conjunction

/-!
# Intersecting is exact

What two regions have in common, whatever their segments look like: in any order,
overlapping, with their bounds reversed, or empty.

* `Region.intersect?_admits_iff` reads an intersection on the extended line, and
  `Region.intersect?_contains_iff` by the code's own test on numbers.
* `Region.intersect?_eq_none_iff` says that nothing is left exactly if there is no common
  point.

Both need bounds that are numbers.  The last part needs nothing: on every level, two
things *meet* exactly if they have an intersection (`intersection_exact`).  The code
answers the two questions by separate functions on slots and tuples.
-/

namespace DecisionTuples
namespace Region

variable {a b c : Region}

/-- For a number, to be admitted is what the code tests. -/
theorem admits_iff_contains (region : Region) {v : Number} {x : EReal}
    (h : v.extended? = some x) : region.Admits x ↔ region.Contains v :=
  exists_congr fun segment => and_congr_right fun _ => segment.admits_iff_contains h

/-- No segment contains `nan`. -/
theorem not_contains_nan (region : Region) : ¬ region.Contains .nan := by
  rintro ⟨segment, -, hpast, -⟩
  exact hpast.ne_nan.2 rfl

section

variable (ha : a.Ordered) (hb : b.Ordered)

include ha hb

/-- An intersection admits exactly the common points. -/
theorem intersect?_admits_iff (h : a.intersect? b = some c) (x : EReal) :
    c.Admits x ↔ a.Admits x ∧ b.Admits x := by
  rw [← exists_intersect?_iff ha hb x]
  constructor
  · intro hx
    exact ⟨c, h, hx⟩
  · rintro ⟨found, hfound, hx⟩
    obtain rfl : c = found := Option.some_inj.mp (h.symm.trans hfound)
    exact hx

/-- By the code's own test, an intersection contains exactly the common numbers. -/
theorem intersect?_contains_iff (h : a.intersect? b = some c) (v : Number) :
    c.Contains v ↔ a.Contains v ∧ b.Contains v := by
  by_cases hnan : v = .nan
  · subst hnan
    exact iff_of_false (not_contains_nan c) fun hboth => not_contains_nan a hboth.1
  · obtain ⟨x, hx⟩ := Number.exists_extended? hnan
    rw [← admits_iff_contains c hx, ← admits_iff_contains a hx, ← admits_iff_contains b hx]
    exact intersect?_admits_iff ha hb h x

/-- There is no intersection exactly if there is no common point. -/
theorem intersect?_eq_none_iff : a.intersect? b = none ↔ ¬ ∃ x, a.Admits x ∧ b.Admits x := by
  constructor
  · rintro hnone ⟨x, hx⟩
    obtain ⟨found, hfound, -⟩ := (exists_intersect?_iff ha hb x).mpr hx
    rw [hnone] at hfound
    cases hfound
  · intro hno
    cases h : a.intersect? b with
    | none => rfl
    | some found =>
        -- What was found has no empty segment, so it has a point.
        obtain ⟨x, hx⟩ := (solid_of_intersect? h).exists_admits
        exact absurd ⟨x, (intersect?_admits_iff ha hb h x).mp hx⟩ hno

end

end Region

theorem Slot.meets_iff_exists (a b : Slot) :
    a.meets b = true ↔ ∃ c, a.intersect? b = some c := by
  rw [Slot.meets_eq_isSome, Option.isSome_iff_exists]

theorem Tuple.meets_iff_exists (a b : Tuple) :
    a.meets b = true ↔ ∃ c, a.intersect? b = some c := by
  rw [Tuple.meets_eq_isSome, Option.isSome_iff_exists]

/-- **Intersecting is exact.**  If two regions without `nan` have an intersection, it admits
and contains just what both do and has no empty segment; they have none if and only if
they have no point in common, so none if one of them is empty.  Two regions, two slots or
two tuples of any kind and width meet if and only if they have an intersection. -/
theorem intersection_exact :
    (∀ a b : Region, a.Ordered → b.Ordered →
      (∀ c, a.intersect? b = some c → c.Solid ∧
        (∀ x, c.Admits x ↔ a.Admits x ∧ b.Admits x) ∧
        ∀ v, c.Contains v ↔ a.Contains v ∧ b.Contains v) ∧
      (a.intersect? b = none ↔ ¬ ∃ x, a.Admits x ∧ b.Admits x) ∧
      (a.IsEmpty ∨ b.IsEmpty → a.intersect? b = none)) ∧
    (∀ a b : Region, a.meets b = true ↔ ∃ c, a.intersect? b = some c) ∧
    (∀ a b : Slot, a.meets b = true ↔ ∃ c, a.intersect? b = some c) ∧
    ∀ a b : Tuple, a.meets b = true ↔ ∃ c, a.intersect? b = some c := by
  refine ⟨fun a b ha hb => ⟨fun c h => ⟨?_, ?_, ?_⟩, ?_, ?_⟩, ?_, ?_, ?_⟩
  · exact Region.solid_of_intersect? h
  · exact Region.intersect?_admits_iff ha hb h
  · exact Region.intersect?_contains_iff ha hb h
  · exact Region.intersect?_eq_none_iff ha hb
  · exact Region.intersect?_eq_none ha hb
  · exact fun a b => Option.isSome_iff_exists
  · exact Slot.meets_iff_exists
  · exact Tuple.meets_iff_exists

/-- Segments out of order, touching in a point, with an open end in common, and with
reversed bounds.  The point two and the open interval from seven to nine are left. -/
theorem intersection_exact_touching :
    ∃ a b c : Region,
      a.segments = [⟨⟨false, true⟩, ⟨.ofRatio false 7 1, .ofRatio false 9 1⟩⟩,
        ⟨.closed, ⟨.ofRatio false 5 1, .ofRatio false 1 1⟩⟩,
        ⟨.closed, ⟨.ofRatio false 0 1, .ofRatio false 2 1⟩⟩] ∧
      b.segments = [⟨.opened, .above (.ofRatio false 7 1)⟩,
        ⟨.closed, ⟨.ofRatio false 2 1, .ofRatio false 4 1⟩⟩] ∧
      a.Ordered ∧ b.Ordered ∧ a.intersect? b = some c ∧ c.segments.length = 2 ∧ c.Solid ∧
      (∀ x, c.Admits x ↔ a.Admits x ∧ b.Admits x) ∧
      c.Contains (.ofRatio false 2 1) ∧ ¬ c.Contains (.ofRatio false 7 1) := by
  let a : Region := ⟨⟨⟨false, true⟩, ⟨.ofRatio false 7 1, .ofRatio false 9 1⟩⟩,
    [⟨.closed, ⟨.ofRatio false 5 1, .ofRatio false 1 1⟩⟩,
      ⟨.closed, ⟨.ofRatio false 0 1, .ofRatio false 2 1⟩⟩]⟩
  let b : Region := ⟨⟨.opened, .above (.ofRatio false 7 1)⟩,
    [⟨.closed, ⟨.ofRatio false 2 1, .ofRatio false 4 1⟩⟩]⟩
  let c : Region := ⟨⟨.opened, ⟨.ofRatio false 7 1, .ofRatio false 9 1⟩⟩,
    [⟨.closed, .point (.ofRatio false 2 1)⟩]⟩
  have hnan (p q : Nat) : Number.ofRatio false p q ≠ .nan := Number.ofRank_ne_nan _ _
  have htop : Number.infinity ≠ .nan := Number.ofRank_ne_nan _ _
  have ha : a.Ordered := by simp [Region.Ordered, Region.segments, Segment.Ordered, a, hnan]
  have hb : b.Ordered := by
    simp [Region.Ordered, Region.segments, Segment.Ordered, Interval.above, b, hnan, htop]
  have h : a.intersect? b = some c := by decide +kernel
  obtain ⟨hsolid, hadmits, -⟩ := (intersection_exact.1 a b ha hb).1 c h
  have htwo : c.Contains (.ofRatio false 2 1) := by decide +kernel
  have hseven : ¬ c.Contains (.ofRatio false 7 1) := by decide +kernel
  exact ⟨a, b, c, rfl, rfl, ha, hb, h, rfl, hsolid, hadmits, htwo, hseven⟩

end DecisionTuples
