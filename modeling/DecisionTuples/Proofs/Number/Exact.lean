import DecisionTuples.Grammar.Token
import DecisionTuples.Proofs.Number.Line
import Mathlib.Algebra.Order.Ring.Nat
import Mathlib.Tactic.Ring

/-!
# Numbers in exact decimal form

The magnitude of a finite number is a natural number over `2 ^ 1074`, so it has finitely
many decimal places.  `Number.exactNumeral` writes them all out, by long division.

Reading a decimal magnitude rounds it to the nearest number.  Where the magnitude is one
of a number already, nothing is lost: the nearest rank is the rank itself
(`Number.nearestRank_exact`), and the bounds behind which magnitudes are taken for zero
or infinity are out of reach (`Decimal.toNumber_exact`).  So the numeral has the value
that it was made from (`Numeral.value_exactNumeral`).
-/

namespace DecisionTuples

theorem twoTo_add (a b : Nat) : twoTo (a + b) = twoTo a * twoTo b := Nat.pow_add ..

theorem tenTo_zero : tenTo 0 = 1 := rfl

theorem tenTo_succ (exponent : Nat) : tenTo (exponent + 1) = tenTo exponent * 10 := rfl

theorem twoTo_dvd_tenTo (exponent : Nat) : twoTo exponent ∣ tenTo exponent :=
  pow_dvd_pow_of_dvd (by decide) exponent

/-! ## Decimal places -/

/-- Digits behind others count as many powers of ten less. -/
theorem ofDigitChars_eq (digits : List Char) (init : Nat) :
    Nat.ofDigitChars 10 digits init =
      tenTo digits.length * init + Nat.ofDigitChars 10 digits 0 :=
  Nat.ofDigitChars_eq_ofDigitChars_zero

/-- The decimal places of `rest / den`, until nothing is left or the bound is reached. -/
def decimalPlaces (den : Nat) : Nat → Nat → List Char
  | 0, _ => []
  | bound + 1, rest =>
    if rest = 0 then []
    else Nat.digitChar (10 * rest / den) :: decimalPlaces den bound (10 * rest % den)

/-- A division that comes out even leaves nothing behind its decimal places. -/
theorem ofDigitChars_decimalPlaces {den : Nat} (hden : 0 < den) (bound : Nat) {rest : Nat}
    (hrest : rest < den) (hdvd : den ∣ rest * tenTo bound) :
    Nat.ofDigitChars 10 (decimalPlaces den bound rest) 0 * den =
      rest * tenTo (decimalPlaces den bound rest).length := by
  induction bound generalizing rest with
  | zero =>
      have hzero : rest = 0 := by
        rw [tenTo_zero, Nat.mul_one] at hdvd
        exact Nat.eq_zero_of_dvd_of_lt hdvd hrest
      simp [decimalPlaces, hzero]
  | succ bound ih =>
      rw [decimalPlaces]
      by_cases hzero : rest = 0
      · simp [hzero]
      · rw [if_neg hzero]
        have hdivision : den * (10 * rest / den) + 10 * rest % den = 10 * rest :=
          Nat.div_add_mod _ _
        have hdigit : 10 * rest / den < 10 := by
          rw [Nat.div_lt_iff_lt_mul hden]
          omega
        have hnext : den ∣ 10 * rest % den * tenTo bound := by
          have hsum : rest * tenTo (bound + 1) =
              den * (10 * rest / den) * tenTo bound + 10 * rest % den * tenTo bound := by
            rw [← Nat.add_mul, hdivision, tenTo_succ]
            ring
          rw [hsum] at hdvd
          exact (Nat.dvd_add_right ⟨10 * rest / den * tenTo bound, by ring⟩).mp hdvd
        have hplaces := ih (Nat.mod_lt _ hden) hnext
        rw [Nat.ofDigitChars_cons_digitChar_of_lt_ten hdigit, ofDigitChars_eq, List.length_cons,
          Nat.add_mul, hplaces, tenTo_succ]
        calc
          tenTo (decimalPlaces den bound (10 * rest % den)).length *
                (10 * 0 + 10 * rest / den) * den +
              10 * rest % den * tenTo (decimalPlaces den bound (10 * rest % den)).length
              = (den * (10 * rest / den) + 10 * rest % den) *
                  tenTo (decimalPlaces den bound (10 * rest % den)).length := by ring
          _ = rest * (tenTo (decimalPlaces den bound (10 * rest % den)).length * 10) := by
              rw [hdivision]
              ring

theorem isDigit_of_mem_decimalPlaces {den : Nat} (hden : 0 < den) {bound : Nat} {rest : Nat}
    (hrest : rest < den) : ∀ c ∈ decimalPlaces den bound rest, c.isDigit = true := by
  induction bound generalizing rest with
  | zero => nofun
  | succ bound ih =>
      rw [decimalPlaces]
      split
      · nofun
      · refine List.forall_mem_cons.mpr ⟨?_, ih (Nat.mod_lt _ hden)⟩
        have hdigit : 10 * rest / den < 10 := by
          rw [Nat.div_lt_iff_lt_mul hden]
          omega
        simp [Nat.isDigit_digitChar, hdigit]

/-! ## Rounding what needs no rounding -/

theorem roundHalfEven_mul {den : Nat} (hden : 0 < den) (quotient : Nat) :
    roundHalfEven (quotient * den) den = quotient := by
  simp [roundHalfEven, Nat.mul_div_cancel _ hden, hden]

namespace Number

/-- The nearest rank to the magnitude of a rank is the rank. -/
theorem nearestRank_exact {num den rank : Nat} (hden : 0 < den) (hrank : rank ≤ infiniteRank)
    (h : num * twoTo 1074 = units rank * den) : nearestRank num den = rank := by
  have hbase : twoTo 53 = twoTo 52 * 2 := twoTo_succ 52
  have hquotient : units rank * den / den = units rank := Nat.mul_div_cancel _ hden
  simp only [nearestRank, h, hquotient]
  by_cases hsmall : rank < twoTo 53
  · -- The steps are single units.
    have hunits : units rank = rank := if_pos hsmall
    have hshift : rank.log2 - 52 = 0 := by
      rcases Nat.eq_zero_or_pos rank with rfl | hpos
      · rfl
      · have hlog := (Nat.log2_lt (by omega : rank ≠ 0)).mpr hsmall
        omega
    have hstep : twoTo 0 = 1 := rfl
    rw [hunits, hshift, hstep, Nat.mul_one, roundHalfEven_mul hden]
    omega
  · obtain ⟨doublings, offset, hoffset, rfl⟩ := exists_doublings hsmall
    -- The steps are of the size that the units of the rank are a multiple of.
    have hunits := units_eq doublings offset hoffset
    have hlog : (units ((doublings + 2) * twoTo 52 + offset)).log2 = 52 + (doublings + 1) := by
      have hpos : units ((doublings + 2) * twoTo 52 + offset) ≠ 0 := by
        rw [hunits]
        exact (Nat.mul_pos (by omega) (twoTo_pos _)).ne'
      rw [Nat.log2_eq_iff hpos, hunits]
      have hlow : twoTo (52 + (doublings + 1)) = twoTo 52 * twoTo (doublings + 1) := twoTo_add _ _
      have hhigh : twoTo (52 + (doublings + 1) + 1) = twoTo 53 * twoTo (doublings + 1) := by
        rw [twoTo_succ, hlow, hbase]
        ring
      change twoTo _ ≤ _ ∧ _ < twoTo _
      rw [hlow, hhigh]
      constructor
      · exact Nat.mul_le_mul_right _ (Nat.le_add_right _ _)
      · exact Nat.mul_lt_mul_of_pos_right (by omega) (twoTo_pos _)
    have hshift : 52 + (doublings + 1) - 52 = doublings + 1 := by omega
    have hsteps : units ((doublings + 2) * twoTo 52 + offset) * den =
        (twoTo 52 + offset) * (den * twoTo (doublings + 1)) := by
      rw [hunits]
      ring
    have htotal : (doublings + 1) * twoTo 52 + (twoTo 52 + offset) =
        (doublings + 2) * twoTo 52 + offset := by ring
    rw [hlog, hshift, hsteps, roundHalfEven_mul (Nat.mul_pos hden (twoTo_pos _)), htotal]
    exact min_eq_left hrank

end Number

namespace Decimal

/-- A magnitude that is not below the least one has enough digits for its places. -/
theorem le_log2_of_exact {digits places units shift : Nat} (hdigits : digits ≠ 0)
    (h : digits * twoTo shift = units * tenTo places) : 3 * places ≤ digits.log2 + shift := by
  by_cases hfew : 3 * places < shift
  · omega
  · have hunits : 1 ≤ units := by
      rcases Nat.eq_zero_or_pos units with rfl | hpos
      · rw [Nat.zero_mul] at h
        have hpos := Nat.mul_pos (Nat.pos_of_ne_zero hdigits) (twoTo_pos shift)
        omega
      · exact hpos
    have hten : twoTo (3 * places) ≤ tenTo places := by
      change 2 ^ (3 * places) ≤ 10 ^ places
      rw [pow_mul]
      exact Nat.pow_le_pow_left (by decide) places
    have hsplit : twoTo (3 * places) = twoTo (3 * places - shift) * twoTo shift := by
      rw [← twoTo_add]
      congr 1
      omega
    have hle : twoTo (3 * places - shift) * twoTo shift ≤ digits * twoTo shift := by
      calc
        twoTo (3 * places - shift) * twoTo shift ≤ tenTo places := hsplit ▸ hten
        _ ≤ units * tenTo places := Nat.le_mul_of_pos_left _ hunits
        _ = digits * twoTo shift := h.symm
    have hlog : 3 * places - shift ≤ digits.log2 :=
      (Nat.le_log2 hdigits).mpr (Nat.le_of_mul_le_mul_right hle (twoTo_pos shift))
    omega

/-- The magnitude of a rank, given exactly, is read as the rank. -/
theorem toNumber_exact {negative : Bool} {digits places rank : Nat} (hrank : rank < infiniteRank)
    (h : digits * twoTo 1074 = Number.units rank * tenTo places) :
    (Decimal.mk digits (-(places : Int))).toNumber negative = .ofRank negative rank := by
  have hten : 0 < tenTo places := Nat.pow_pos (by decide)
  unfold toNumber
  dsimp only
  by_cases hzero : digits = 0
  · have hunits : Number.units rank = 0 := by
      rw [hzero, Nat.zero_mul] at h
      rcases Nat.mul_eq_zero.mp h.symm with hunits | hten'
      · exact hunits
      · omega
    have hfirst : Number.units 0 = 0 := if_pos (twoTo_pos 53)
    have hrankZero : rank = 0 := Number.units_strictMono.injective (hunits.trans hfirst.symm)
    rw [if_pos hzero, hrankZero]
  · have hsmall : ¬ (digits.log2 : Int) + 1 + -(places : Int) < -400 := by
      have hlog := le_log2_of_exact hzero h
      omega
    have hplaces : (-(-(places : Int))).toNat = places := by omega
    have hwhole : (-(places : Int)).toNat = 0 := by omega
    rw [if_neg hzero, if_neg (by omega), if_neg hsmall, hplaces, hwhole, tenTo_zero, Nat.mul_one,
      Number.ofRatio, Number.nearestRank_exact hten hrank.le h]

end Decimal

/-! ## Exact numerals -/

namespace Number

/-- All digits of the magnitude of a finite rank. -/
def exactNumeral (rank : Nat) : Numeral where
  whole := Nat.toDigits 10 (units rank / twoTo 1074)
  fraction := decimalPlaces (twoTo 1074) 1074 (units rank % twoTo 1074)

theorem exactNumeral_whole_ne_nil (rank : Nat) : (exactNumeral rank).whole ≠ [] :=
  Nat.toDigits_ne_nil

theorem isDigit_of_mem_whole (rank : Nat) : ∀ c ∈ (exactNumeral rank).whole, c.isDigit = true :=
  fun _ hc => Nat.isDigit_of_mem_toDigits (by decide) (by decide) hc

theorem isDigit_of_mem_fraction (rank : Nat) :
    ∀ c ∈ (exactNumeral rank).fraction, c.isDigit = true :=
  isDigit_of_mem_decimalPlaces (twoTo_pos 1074) (Nat.mod_lt _ (twoTo_pos 1074))

/-- The digits of the exact numeral are the magnitude, shifted by their places. -/
theorem exactNumeral_exact (rank : Nat) :
    Nat.ofDigitChars 10 ((exactNumeral rank).whole ++ (exactNumeral rank).fraction) 0 *
        twoTo 1074 = units rank * tenTo (exactNumeral rank).fraction.length := by
  have hden : 0 < twoTo 1074 := twoTo_pos 1074
  have hplaces := ofDigitChars_decimalPlaces hden 1074 (Nat.mod_lt (units rank) hden)
    ((twoTo_dvd_tenTo 1074).mul_left _)
  have hdivision := Nat.div_add_mod (units rank) (twoTo 1074)
  simp only [exactNumeral]
  rw [Nat.ofDigitChars_append, Nat.ofDigitChars_ten_toDigits, ofDigitChars_eq, Nat.add_mul, hplaces]
  calc
    tenTo (decimalPlaces (twoTo 1074) 1074 (units rank % twoTo 1074)).length *
            (units rank / twoTo 1074) * twoTo 1074 +
          units rank % twoTo 1074 *
            tenTo (decimalPlaces (twoTo 1074) 1074 (units rank % twoTo 1074)).length
        = (twoTo 1074 * (units rank / twoTo 1074) + units rank % twoTo 1074) *
            tenTo (decimalPlaces (twoTo 1074) 1074 (units rank % twoTo 1074)).length := by
          ring
    _ = units rank *
          tenTo (decimalPlaces (twoTo 1074) 1074 (units rank % twoTo 1074)).length := by
        rw [hdivision]

end Number

/-- The exact numeral of a magnitude has its value. -/
theorem Numeral.value_exactNumeral {rank : Nat} (hrank : rank < infiniteRank) (negative : Bool) :
    (Number.exactNumeral rank).value negative = .ofRank negative rank :=
  Decimal.toNumber_exact hrank (Number.exactNumeral_exact rank)

end DecisionTuples
