import DecisionTuples.Number.Rounding

/-!
# Decimal magnitudes

A decimal magnitude is a natural number of some power of ten.  This module
reads one from digits, rounds it to a number, and gives the exact decimal form
that every finite magnitude has.  Rounding never builds a power of ten that
cannot matter: magnitudes that are certainly infinite or certainly zero are
recognised from the exponent.
-/

namespace DecisionTuples

/-- The magnitude `digits * 10 ^ exponent`. -/
structure Decimal where
  digits : Nat
  exponent : Int
  deriving DecidableEq

namespace Decimal

/-- The magnitude written as `whole`, or as `whole.fraction`. -/
def ofDigits (whole fraction : List Char) : Decimal :=
  ⟨Nat.ofDigitChars 10 (whole ++ fraction) 0, -(fraction.length : Int)⟩

/-- The same magnitude shifted by `places` decimal places. -/
def shift (d : Decimal) (places : Int) : Decimal := ⟨d.digits, d.exponent + places⟩

/-- The number of the given sign nearest to a decimal magnitude.  Past
`10 ^ 400` every magnitude is infinite, and below `10 ^ -400` every one is
zero. -/
def toNumber (negative : Bool) (d : Decimal) : Number :=
  if d.digits = 0 then .ofRank negative 0
  else if 400 < d.exponent then .ofRank negative infiniteRank
  else if (d.digits.log2 : Int) + 1 + d.exponent < -400 then .ofRank negative 0
  else .ofRatio negative (d.digits * tenTo d.exponent.toNat) (tenTo (-d.exponent).toNat)

/-- The exact decimal form of the magnitude of a finite rank:
`units / 2 ^ 1074` is `units * 5 ^ 1074` over `10 ^ 1074`. -/
def exact (rank : Nat) : Decimal := ⟨Number.units rank * Nat.pow 5 1074, -1074⟩

end Decimal
end DecisionTuples
