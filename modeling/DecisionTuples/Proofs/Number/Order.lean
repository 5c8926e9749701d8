import DecisionTuples.Number.Basic

/-!
# The order of numbers

The numbers other than `nan` are in order by their places; two numbers at one place are
equal values.  The finite numbers are those between the two infinite ones.
-/

namespace DecisionTuples
namespace Number

variable {a b c : Number} {p q : Int}

theorem ofRank_ne_nan (negative : Bool) (rank : Nat) : ofRank negative rank ≠ nan := nofun

theorem exists_place? (h : a ≠ nan) : ∃ p, a.place? = some p := by
  cases a with
  | nan => exact absurd rfl h
  | signed negative rank => cases negative <;> exact ⟨_, rfl⟩

theorem lt_iff_of_place? (ha : a.place? = some p) (hb : b.place? = some q) : a < b ↔ p < q := by
  change Related (· < ·) a b ↔ p < q
  simp [Related, ha, hb]

theorem beq_iff_of_place? (ha : a.place? = some p) (hb : b.place? = some q) :
    (a == b) = true ↔ p = q := by
  change decide (Related (· = ·) a b) = true ↔ p = q
  simp [Related, ha, hb]

theorem beq_self (h : a ≠ nan) : (a == a) = true := by
  obtain ⟨p, hp⟩ := exists_place? h
  exact (beq_iff_of_place? hp hp).mpr rfl

theorem ne_nan_of_lt (h : a < b) : a ≠ nan ∧ b ≠ nan := by
  constructor
  · rintro rfl
    exact not_nan_lt b h
  · rintro rfl
    exact not_lt_nan a h

theorem lt_trans (hab : a < b) (hbc : b < c) : a < c := by
  obtain ⟨p, hp⟩ := exists_place? (ne_nan_of_lt hab).1
  obtain ⟨q, hq⟩ := exists_place? (ne_nan_of_lt hbc).1
  obtain ⟨r, hr⟩ := exists_place? (ne_nan_of_lt hbc).2
  rw [lt_iff_of_place? hp hq] at hab
  rw [lt_iff_of_place? hq hr] at hbc
  rw [lt_iff_of_place? hp hr]
  omega

theorem lt_asymm (h : a < b) : ¬ b < a := fun h' => lt_irrefl a (lt_trans h h')

theorem lt_of_not_lt (hb : b ≠ nan) (hab : ¬ a < b) (hac : a < c) : b < c := by
  obtain ⟨p, hp⟩ := exists_place? (ne_nan_of_lt hac).1
  obtain ⟨q, hq⟩ := exists_place? hb
  obtain ⟨r, hr⟩ := exists_place? (ne_nan_of_lt hac).2
  rw [lt_iff_of_place? hp hq] at hab
  rw [lt_iff_of_place? hp hr] at hac
  rw [lt_iff_of_place? hq hr]
  omega

/-- Numbers that are not `nan` are in order unless they are equal values. -/
theorem lt_trichotomy (ha : a ≠ nan) (hb : b ≠ nan) : a < b ∨ (a == b) = true ∨ b < a := by
  obtain ⟨p, hp⟩ := exists_place? ha
  obtain ⟨q, hq⟩ := exists_place? hb
  rw [lt_iff_of_place? hp hq, beq_iff_of_place? hp hq, lt_iff_of_place? hq hp]
  omega

/-! ## Infinite numbers -/

theorem place?_infinity : infinity.place? = some (infiniteRank : Int) := by
  change some ((min infiniteRank infiniteRank : Nat) : Int) = _
  rw [Nat.min_self]

theorem place?_negativeInfinity : negativeInfinity.place? = some (-(infiniteRank : Int)) := by
  change some (-((min infiniteRank infiniteRank : Nat) : Int)) = _
  rw [Nat.min_self]

/-- No place lies further out than the infinite ones. -/
theorem natAbs_le_of_place? (h : a.place? = some p) : p.natAbs ≤ infiniteRank := by
  cases a with
  | nan => cases h
  | signed negative rank =>
      have hrank := rank.isLt
      cases negative <;> cases h <;> omega

theorem not_lt_negativeInfinity (a : Number) : ¬ a < negativeInfinity := by
  intro h
  obtain ⟨p, hp⟩ := exists_place? (ne_nan_of_lt h).1
  have hbound := natAbs_le_of_place? hp
  rw [lt_iff_of_place? hp place?_negativeInfinity] at h
  omega

theorem not_infinity_lt (a : Number) : ¬ infinity < a := by
  intro h
  obtain ⟨p, hp⟩ := exists_place? (ne_nan_of_lt h).2
  have hbound := natAbs_le_of_place? hp
  rw [lt_iff_of_place? place?_infinity hp] at h
  omega

theorem negativeInfinity_lt_infinity : negativeInfinity < infinity := by decide +kernel

/-- The finite numbers are those between the infinite ones. -/
theorem isFinite_iff : a.isFinite = true ↔ negativeInfinity < a ∧ a < infinity := by
  cases a with
  | nan => exact ⟨nofun, fun h => absurd h.2 (not_nan_lt _)⟩
  | signed negative rank =>
      have hplace : (signed negative rank).place? =
          some (if negative then -(rank.val : Int) else rank.val) := by
        cases negative <;> rfl
      rw [lt_iff_of_place? place?_negativeInfinity hplace,
        lt_iff_of_place? hplace place?_infinity]
      simp only [isFinite, decide_eq_true_eq]
      split <;> omega

/-- Of the numbers that are not finite there are just three. -/
theorem eq_of_not_isFinite (h : a.isFinite ≠ true) :
    a = nan ∨ a = infinity ∨ a = negativeInfinity := by
  cases a with
  | nan => exact .inl rfl
  | signed negative rank =>
      have hrank : rank = ⟨min infiniteRank infiniteRank, by omega⟩ := by
        have hlarge : ¬ rank.val < infiniteRank := by simpa [isFinite] using h
        exact Fin.ext (by dsimp only; omega)
      cases negative with
      | false => exact .inr (.inl (congrArg (signed false) hrank))
      | true => exact .inr (.inr (congrArg (signed true) hrank))

end Number
end DecisionTuples
