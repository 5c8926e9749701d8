import DecisionTuples.Number.Text
import DecisionTuples.Proofs.Number.Exact

/-!
# The shortest digits read as their number

The search for the shortest digits of a rank ends with digits that read as the rank,
whichever grid it ends on (`Decimal.shortest_readsAs`).  The sign plays no part in
reading, so they read as the number of either sign.

What a decimal is read as depends on its magnitude alone: zeros behind the digits may be
counted or written out (`Decimal.toNumber_mul_tenTo`), and a zero behind the digits and one
decimal place more change nothing (`Decimal.toNumber_withPlace`).
-/

namespace DecisionTuples

/-! ## Magnitudes -/

theorem roundHalfEven_mul_mul {factor : Nat} (hfactor : 0 < factor) (num den : Nat) :
    roundHalfEven (num * factor) (den * factor) = roundHalfEven num den := by
  have hlt (a b : Nat) : 2 * (a * factor) < b * factor ↔ 2 * a < b := by
    rw [← Nat.mul_assoc, Nat.mul_lt_mul_right hfactor]
  have hlt' (a b : Nat) : b * factor < 2 * (a * factor) ↔ b < 2 * a := by
    rw [← Nat.mul_assoc, Nat.mul_lt_mul_right hfactor]
  simp only [roundHalfEven, Nat.mul_div_mul_right num den hfactor, Nat.mul_mod_mul_right, hlt, hlt']

namespace Number

theorem nearestRank_mul_mul {factor : Nat} (hfactor : 0 < factor) (num den : Nat) :
    nearestRank (num * factor) (den * factor) = nearestRank num den := by
  have hnum : num * factor * twoTo 1074 = num * twoTo 1074 * factor := Nat.mul_right_comm ..
  have hden (shift : Nat) : den * factor * twoTo shift = den * twoTo shift * factor :=
    Nat.mul_right_comm ..
  simp only [nearestRank, hnum, hden, Nat.mul_div_mul_right _ den hfactor,
    roundHalfEven_mul_mul hfactor]

end Number

namespace Decimal

/-- The sign is put on a rank that does not depend on it. -/
theorem exists_toNumber_eq (d : Decimal) :
    ∃ rank ≤ infiniteRank, ∀ negative, d.toNumber negative = .ofRank negative rank := by
  unfold toNumber
  by_cases hzero : d.digits = 0
  · exact ⟨0, Nat.zero_le _, fun negative => by rw [if_pos hzero]⟩
  · by_cases hlarge : 400 < d.exponent
    · exact ⟨infiniteRank, Nat.le_refl _, fun negative => by rw [if_neg hzero, if_pos hlarge]⟩
    · by_cases hsmall : (d.digits.log2 : Int) + 1 + d.exponent < -400
      · exact ⟨0, Nat.zero_le _, fun negative => by
          rw [if_neg hzero, if_neg hlarge, if_pos hsmall]⟩
      · refine ⟨Number.nearestRank (d.digits * tenTo d.exponent.toNat) (tenTo (-d.exponent).toNat),
          Nat.min_le_right .., fun negative => ?_⟩
        rw [if_neg hzero, if_neg hlarge, if_neg hsmall, Number.ofRatio]

theorem ReadsAs.toNumber_eq {d : Decimal} {rank : Nat} (h : d.ReadsAs rank)
    (hrank : rank ≤ infiniteRank) (negative : Bool) :
    d.toNumber negative = .ofRank negative rank := by
  obtain ⟨found, hfound, heq⟩ := d.exists_toNumber_eq
  rw [ReadsAs, heq, Number.ofRank, Number.ofRank, Number.signed.injEq] at h
  have hsame : min found infiniteRank = min rank infiniteRank := congrArg Fin.val h.2
  rw [heq]
  congr 1
  omega

theorem ReadsAs.digits_ne_zero {d : Decimal} {rank : Nat} (h : d.ReadsAs rank)
    (hrank : rank ≤ infiniteRank) (hpos : 0 < rank) : d.digits ≠ 0 := by
  intro hzero
  rw [ReadsAs, toNumber, if_pos hzero, Number.ofRank, Number.ofRank, Number.signed.injEq] at h
  have hsame : min 0 infiniteRank = min rank infiniteRank := congrArg Fin.val h.2
  omega

/-- A decimal that reads as a finite magnitude above zero is not infinite for its exponent
alone. -/
theorem ReadsAs.exponent_le {d : Decimal} {rank : Nat} (h : d.ReadsAs rank) (hpos : 0 < rank)
    (hrank : rank < infiniteRank) : d.exponent ≤ 400 := by
  have hdigits := h.digits_ne_zero hrank.le hpos
  by_contra hlarge
  rw [ReadsAs, toNumber, if_neg hdigits, if_pos (by omega), Number.ofRank, Number.ofRank,
    Number.signed.injEq] at h
  have hsame : min infiniteRank infiniteRank = min rank infiniteRank := congrArg Fin.val h.2
  omega

/-- Zeros may be written out behind the digits instead of being counted. -/
theorem toNumber_mul_tenTo {digits exponent : Nat} (hexponent : exponent ≤ 400)
    (negative : Bool) :
    (Decimal.mk (digits * tenTo exponent) 0).toNumber negative =
      (Decimal.mk digits exponent).toNumber negative := by
  have hten : tenTo exponent ≠ 0 := (Nat.pow_pos (by decide)).ne'
  have hcount : (exponent : Int).toNat = exponent := by omega
  have hplaces : (-(exponent : Int)).toNat = 0 := by omega
  have hnone : (0 : Int).toNat = 0 := rfl
  unfold toNumber
  dsimp only
  by_cases hzero : digits = 0
  · rw [if_pos hzero, if_pos (by rw [hzero, Nat.zero_mul])]
  · rw [if_neg hzero, if_neg (Nat.mul_ne_zero hzero hten), if_neg (by omega), if_neg (by omega),
      if_neg (by omega), if_neg (by omega), hcount, hplaces, Int.neg_zero, hnone, tenTo_zero,
      Nat.mul_one]

/-- One decimal place more does not change what is read. -/
theorem toNumber_withPlace {digits exponent : Nat} (hexponent : exponent ≤ 400) (negative : Bool) :
    (Decimal.mk (digits * tenTo (exponent + 1)) (-1)).toNumber negative =
      (Decimal.mk digits exponent).toNumber negative := by
  have hten : tenTo exponent * 10 = tenTo (exponent + 1) := rfl
  have hpos : 0 < tenTo exponent := Nat.pow_pos (by decide)
  unfold toNumber
  dsimp only
  by_cases hzero : digits = 0
  · rw [if_pos hzero, if_pos (by rw [hzero, Nat.zero_mul])]
  · have hone : (-1 : Int).toNat = 0 := rfl
    have hplace : (- -1 : Int).toNat = 1 := rfl
    have hexp : (exponent : Int).toNat = exponent := by omega
    have hnone : (-(exponent : Int)).toNat = 0 := by omega
    have hdigits : digits * tenTo (exponent + 1) ≠ 0 := by
      rw [← hten]
      exact Nat.mul_ne_zero hzero (by omega)
    rw [if_neg hdigits, if_neg (by omega), if_neg (by omega), if_neg hzero, if_neg (by omega),
      if_neg (by omega), hone, hplace, hexp, hnone, tenTo_zero, Nat.mul_one, Number.ofRatio,
      Number.ofRatio]
    have hfactor := Number.nearestRank_mul_mul (by decide : 0 < 10) (digits * tenTo exponent) 1
    rw [Nat.mul_assoc, hten] at hfactor
    exact congrArg (Number.ofRank negative) hfactor

/-! ## The search -/

theorem readsAs_of_onGrid? {tie : TieRule} {rank : Nat} {e : Int} {d : Decimal}
    (h : onGrid? tie rank e = some d) : d.ReadsAs rank := by
  unfold onGrid? at h
  dsimp only at h
  split at h
  · next hbelow =>
      split at h
      · next habove =>
          split at h
          · cases h
            exact hbelow
          · split at h
            · cases h
              exact habove
            · split at h
              · cases h
                exact habove
              · split at h
                · cases h
                  exact hbelow
                · cases h
                  exact habove
      · cases h
        exact hbelow
  · split at h
    · next habove =>
        cases h
        exact habove
    · cases h

/-- All digits of a magnitude read as its rank. -/
theorem exact_readsAs {rank : Nat} (h : rank < infiniteRank) : (exact rank).ReadsAs rank := by
  -- The places are given a name, since the number would be computed with.
  obtain ⟨places, hplaces⟩ : ∃ places : Nat, 1074 = places := ⟨_, rfl⟩
  have hexponent : (-1074 : Int) = -(places : Int) := by omega
  have hten : Nat.pow 5 places * twoTo places = tenTo places := (Nat.mul_pow 5 2 places).symm
  rw [exact, hexponent, hplaces]
  refine toNumber_exact h ?_
  rw [hplaces, Nat.mul_assoc, hten]

theorem shortest_readsAs (tie : TieRule) {rank : Nat} (h : rank < infiniteRank) :
    (shortest tie rank).ReadsAs rank := by
  unfold shortest
  dsimp only
  cases hfound : (List.range 24).findSome? fun k : Nat =>
      onGrid? tie rank (leadingBound rank - (k : Int)) with
  | none => exact exact_readsAs h
  | some d =>
      obtain ⟨k, -, hgrid⟩ := List.exists_of_findSome?_eq_some hfound
      exact readsAs_of_onGrid? hgrid

end Decimal
end DecisionTuples
