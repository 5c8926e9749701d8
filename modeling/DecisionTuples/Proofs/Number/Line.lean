import DecisionTuples.Proofs.Number.Order
import Mathlib.Data.EReal.Operations

/-!
# Numbers on the extended line

Every number but `nan` is a point of the extended real line: a finite one is its
sign and its units over `2 ^ 1074`, the infinite ones are the two ends.  The code
compares numbers by their places.  `lt_iff_of_extended?` and its companions say
that this is comparing the points, so a bound means on the line what it means
for the code.
-/

namespace DecisionTuples

theorem twoTo_pos (exponent : Nat) : 0 < twoTo exponent := Nat.pow_pos (by decide)

theorem twoTo_succ (exponent : Nat) : twoTo (exponent + 1) = twoTo exponent * 2 := rfl

theorem infiniteRank_pos : 0 < infiniteRank := Nat.mul_pos (by decide) (twoTo_pos 52)

namespace Number

/-! ## Magnitudes -/

/-- From `2 ^ 53` on a rank is a number of doublings and a place between two of
them. -/
theorem exists_doublings {rank : Nat} (h : ¬ rank < twoTo 53) :
    ∃ doublings offset, offset < twoTo 52 ∧ rank = (doublings + 2) * twoTo 52 + offset := by
  have hbase : twoTo 53 = twoTo 52 * 2 := twoTo_succ 52
  have hdiv := Nat.div_add_mod rank (twoTo 52)
  have htwo : 2 ≤ rank / twoTo 52 := by
    rw [Nat.le_div_iff_mul_le (twoTo_pos 52)]
    omega
  refine ⟨rank / twoTo 52 - 2, rank % twoTo 52, Nat.mod_lt _ (twoTo_pos 52), ?_⟩
  rw [Nat.sub_add_cancel htwo, Nat.mul_comm]
  exact hdiv.symm

/-- With each doubling the step between neighbouring magnitudes is twice as large. -/
theorem units_eq (doublings offset : Nat) (h : offset < twoTo 52) :
    units ((doublings + 2) * twoTo 52 + offset) = (twoTo 52 + offset) * twoTo (doublings + 1) := by
  have hbase : twoTo 53 = twoTo 52 * 2 := twoTo_succ 52
  have hlarge : ¬ (doublings + 2) * twoTo 52 + offset < twoTo 53 := by
    rw [hbase, Nat.add_mul]
    omega
  have hdiv : ((doublings + 2) * twoTo 52 + offset) / twoTo 52 = doublings + 2 := by
    rw [Nat.mul_comm, Nat.mul_add_div (twoTo_pos 52), Nat.div_eq_of_lt h, Nat.add_zero]
  have hmod : ((doublings + 2) * twoTo 52 + offset) % twoTo 52 = offset := by
    rw [Nat.mul_comm, Nat.mul_add_mod, Nat.mod_eq_of_lt h]
  rw [units, if_neg hlarge, hdiv, hmod]
  rfl

/-- The next rank is a larger magnitude. -/
theorem units_lt_succ (rank : Nat) : units rank < units (rank + 1) := by
  have hbase : twoTo 53 = twoTo 52 * 2 := twoTo_succ 52
  by_cases hsmall : rank + 1 < twoTo 53
  · rw [units, units, if_pos hsmall, if_pos (by omega)]
    exact Nat.lt_succ_self rank
  · by_cases hlast : rank < twoTo 53
    · -- The step from the last magnitude without a doubling to the first with one.
      have hrank : rank + 1 = (0 + 2) * twoTo 52 + 0 := by omega
      rw [hrank, units_eq 0 0 (twoTo_pos 52), units, if_pos hlast]
      have htwo : twoTo (0 + 1) = 2 := rfl
      rw [htwo]
      omega
    · obtain ⟨doublings, offset, hoffset, rfl⟩ := exists_doublings hlast
      -- Between two doublings a rank counts equal steps; the last one carries over.
      by_cases hnext : offset + 1 < twoTo 52
      · rw [Nat.add_assoc, units_eq _ _ hoffset, units_eq _ _ hnext]
        exact Nat.mul_lt_mul_of_pos_right (by omega) (twoTo_pos _)
      · have hcarry : (doublings + 2) * twoTo 52 + offset + 1 =
            (doublings + 1 + 2) * twoTo 52 + 0 := by
          rw [show doublings + 1 + 2 = doublings + 2 + 1 by omega, Nat.add_mul (doublings + 2)]
          omega
        rw [hcarry, units_eq _ _ hoffset, units_eq _ _ (twoTo_pos 52), twoTo_succ (doublings + 1),
          Nat.add_zero, Nat.mul_comm (twoTo _) 2, ← Nat.mul_assoc]
        exact Nat.mul_lt_mul_of_pos_right (by omega) (twoTo_pos _)

theorem units_strictMono : StrictMono units := strictMono_nat_of_lt_succ units_lt_succ

/-- The magnitude of a rank; from `infiniteRank` on it is infinite. -/
noncomputable def magnitude (rank : Nat) : EReal :=
  if rank < infiniteRank then ((units rank / twoTo 1074 : ℝ) : EReal) else ⊤

theorem magnitude_of_lt {rank : Nat} (h : rank < infiniteRank) :
    magnitude rank = ((units rank / twoTo 1074 : ℝ) : EReal) := if_pos h

theorem magnitude_infiniteRank : magnitude infiniteRank = ⊤ := if_neg (Nat.lt_irrefl _)

theorem magnitude_zero : magnitude 0 = 0 := by
  rw [magnitude_of_lt infiniteRank_pos, units, if_pos (twoTo_pos 53), Nat.cast_zero, zero_div,
    EReal.coe_zero]

theorem magnitude_lt {rank rank' : Nat} (h : rank < rank') (hbound : rank' ≤ infiniteRank) :
    magnitude rank < magnitude rank' := by
  rw [magnitude_of_lt (by omega)]
  rcases Nat.lt_or_eq_of_le hbound with hfinite | rfl
  · rw [magnitude_of_lt hfinite, EReal.coe_lt_coe_iff]
    have hpos : (0 : ℝ) < twoTo 1074 := by exact_mod_cast twoTo_pos 1074
    have hunits : (units rank : ℝ) < units rank' := by exact_mod_cast units_strictMono h
    exact div_lt_div_of_pos_right hunits hpos
  · rw [magnitude_infiniteRank]
    exact EReal.coe_lt_top _

theorem magnitude_nonneg {rank : Nat} (h : rank ≤ infiniteRank) : 0 ≤ magnitude rank := by
  rcases Nat.eq_zero_or_pos rank with rfl | hpos
  · exact magnitude_zero.ge
  · rw [← magnitude_zero]
    exact (magnitude_lt hpos h).le

/-! ## Places -/

/-- The point of the line at a place. -/
noncomputable def onLine (place : Int) : EReal :=
  if place < 0 then -magnitude place.natAbs else magnitude place.natAbs

/-- Further places are further points, as far as there are numbers. -/
theorem onLine_lt {p q : Int} (hp : p.natAbs ≤ infiniteRank) (hq : q.natAbs ≤ infiniteRank)
    (hlt : p < q) : onLine p < onLine q := by
  unfold onLine
  by_cases hpneg : p < 0
  · rw [if_pos hpneg]
    by_cases hqneg : q < 0
    · rw [if_pos hqneg, EReal.neg_lt_neg_iff]
      exact magnitude_lt (by omega) hp
    · rw [if_neg hqneg]
      -- Zero lies between the two signs.
      have hbelow : -magnitude p.natAbs < 0 := by
        rw [EReal.neg_lt_comm, neg_zero, ← magnitude_zero]
        exact magnitude_lt (by omega) hp
      exact hbelow.trans_le (magnitude_nonneg hq)
  · rw [if_neg hpneg, if_neg (by omega)]
    exact magnitude_lt (by omega) hq

theorem onLine_le_iff {p q : Int} (hp : p.natAbs ≤ infiniteRank) (hq : q.natAbs ≤ infiniteRank) :
    onLine p ≤ onLine q ↔ p ≤ q := by
  constructor
  · intro h
    by_contra hlt
    exact absurd (onLine_lt hq hp (by omega)) (not_lt.mpr h)
  · intro h
    rcases eq_or_lt_of_le h with rfl | hlt
    · exact le_rfl
    · exact (onLine_lt hp hq hlt).le

theorem onLine_eq_iff {p q : Int} (hp : p.natAbs ≤ infiniteRank) (hq : q.natAbs ≤ infiniteRank) :
    onLine p = onLine q ↔ p = q := by
  rw [le_antisymm_iff, onLine_le_iff hp hq, onLine_le_iff hq hp, ← le_antisymm_iff]

theorem onLine_lt_iff {p q : Int} (hp : p.natAbs ≤ infiniteRank) (hq : q.natAbs ≤ infiniteRank) :
    onLine p < onLine q ↔ p < q := by
  rw [← not_le, onLine_le_iff hq hp, not_le]

/-- The point of the extended line that a number is. -/
noncomputable def extended? (a : Number) : Option EReal := a.place?.map onLine

@[simp] theorem extended?_infinity : extended? infinity = some ⊤ := by
  have hnonneg : ¬ ((infiniteRank : Nat) : Int) < 0 := by omega
  change some (onLine (min infiniteRank infiniteRank : Nat)) = some ⊤
  rw [min_self, onLine, if_neg hnonneg, Int.natAbs_natCast, magnitude_infiniteRank]

@[simp] theorem extended?_negativeInfinity : extended? negativeInfinity = some ⊥ := by
  have hneg : -((infiniteRank : Nat) : Int) < 0 := by
    have := infiniteRank_pos
    omega
  change some (onLine (-(min infiniteRank infiniteRank : Nat))) = some ⊥
  rw [min_self, onLine, if_pos hneg, Int.natAbs_neg, Int.natAbs_natCast, magnitude_infiniteRank,
    EReal.neg_top]

theorem isNaN_eq_false {a : Number} (h : a ≠ nan) : a.isNaN = false := by
  cases a with
  | nan => exact absurd rfl h
  | signed negative rank => rfl

/-- Every number that is not `nan` is a point of the line. -/
theorem exists_extended? {a : Number} (h : a ≠ nan) : ∃ x, a.extended? = some x := by
  cases a with
  | nan => exact absurd rfl h
  | signed negative rank => cases negative <;> exact ⟨_, rfl⟩

section

variable {a b : Number} {x y : EReal}

/-- Two points come from two places, and lie in the same order. -/
theorem related_iff_of_extended? {rel : Int → Int → Prop} {rel' : EReal → EReal → Prop}
    (hrel : ∀ p q : Int, p.natAbs ≤ infiniteRank → q.natAbs ≤ infiniteRank →
      (rel p q ↔ rel' (onLine p) (onLine q)))
    (ha : a.extended? = some x) (hb : b.extended? = some y) : Related rel a b ↔ rel' x y := by
  obtain ⟨p, hp, rfl⟩ := Option.map_eq_some_iff.mp ha
  obtain ⟨q, hq, rfl⟩ := Option.map_eq_some_iff.mp hb
  unfold Related
  rw [hp, hq]
  exact hrel p q (natAbs_le_of_place? hp) (natAbs_le_of_place? hq)

theorem lt_iff_of_extended? (ha : a.extended? = some x) (hb : b.extended? = some y) :
    a < b ↔ x < y :=
  related_iff_of_extended? (fun _ _ hp hq => (onLine_lt_iff hp hq).symm) ha hb

theorem le_iff_of_extended? (ha : a.extended? = some x) (hb : b.extended? = some y) :
    a ≤ b ↔ x ≤ y :=
  related_iff_of_extended? (fun _ _ hp hq => (onLine_le_iff hp hq).symm) ha hb

/-- Equal values are equal points; the two zeros are one. -/
theorem beq_iff_of_extended? (ha : a.extended? = some x) (hb : b.extended? = some y) :
    (a == b) = true ↔ x = y := by
  change decide (Related (· = ·) a b) = true ↔ x = y
  rw [decide_eq_true_iff]
  exact related_iff_of_extended?
    (fun _ _ hp hq => (onLine_eq_iff hp hq).symm) ha hb

end

end Number
end DecisionTuples
