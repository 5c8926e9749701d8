import DecisionTuples.Number.Decimal

/-!
# Shortest decimal digits

The text of a finite number uses the fewest digits that read back as the same
number, and among those the digits nearest to it.  The search walks through the
decimal grids `10 ^ e` from a coarse one to finer ones.  On each grid only the
two neighbours of the magnitude can be nearest to it, and a neighbour counts
when rounding it gives the rank again.  The first grid with such a neighbour
has the fewest digits.

When both neighbours of one grid count and are equally near, formats differ in
the one they write, so the choice is a parameter.
-/

namespace DecisionTuples

/-- Which of two equally near grid points is written. -/
inductive TieRule where
  /-- The one whose last digit is even. -/
  | toEven
  /-- The larger one. -/
  | upward
  deriving DecidableEq

namespace Decimal

/-- The decimal reads as the positive number of the given rank. -/
def ReadsAs (d : Decimal) (rank : Nat) : Prop := d.toNumber false = .ofRank false rank

instance (d : Decimal) (rank : Nat) : Decidable (d.ReadsAs rank) :=
  inferInstanceAs (Decidable (_ = _))

/-- Of the two neighbours of a magnitude on the grid `10 ^ e`, the nearest that
reads as its rank. -/
def onGrid? (tie : TieRule) (rank : Nat) (e : Int) : Option Decimal :=
  let num := Number.units rank * tenTo (-e).toNat
  let den := twoTo 1074 * tenTo e.toNat
  let below : Decimal := ⟨num / den, e⟩
  let above : Decimal := ⟨num / den + 1, e⟩
  let rest := num % den
  if below.ReadsAs rank then
    if above.ReadsAs rank then
      if 2 * rest < den then some below
      else if den < 2 * rest then some above
      else match tie with
        | .upward => some above
        | .toEven => if below.digits % 2 = 0 then some below else some above
    else some below
  else if above.ReadsAs rank then some above
  else none

/-- A decimal exponent at or above the leading one of the magnitude of a rank,
from its binary length: `30103 / 100000` is a little over the logarithm of
two. -/
def leadingBound (rank : Nat) : Int :=
  (((Number.units rank).log2 : Int) - 1073) * 30103 / 100000 + 1

/-- The shortest digits of a finite positive rank.  Seventeen digits always
suffice and the bound is at most two places too high, so the search ends on one
of the grids; the exact form stands behind it. -/
def shortest (tie : TieRule) (rank : Nat) : Decimal :=
  let top := leadingBound rank
  ((List.range 24).findSome? fun k : Nat => onGrid? tie rank (top - (k : Int))).getD (exact rank)

end Decimal
end DecisionTuples
