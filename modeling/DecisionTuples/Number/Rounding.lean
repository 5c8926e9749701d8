import DecisionTuples.Number.Basic

/-!
# Rounding a quotient to the nearest number

Every magnitude that is written in decimal is a quotient of two natural
numbers.  The number read from it is the nearest one, and of two equally near
ones the one whose rank is even.  Values past the largest finite magnitude by
half a step or more become infinity; values below half of the least magnitude
become zero.
-/

namespace DecisionTuples

/-- The natural number nearest to `num / den`, a tie going to the even one. -/
def roundHalfEven (num den : Nat) : Nat :=
  let quotient := num / den
  let rest := num % den
  if 2 * rest < den then quotient
  else if den < 2 * rest then quotient + 1
  else quotient + quotient % 2

namespace Number

/-- The rank whose magnitude is nearest to `num / den`.

The quotient is first counted in units of `2 ^ -1074`.  `shift` is how many
binary places it has beyond the fifty-three that a magnitude keeps; the rank is
then the rounded count of steps of size `2 ^ shift`, raised by `2 ^ 52` for
each doubling of the step.  A count that rounds up to the next power of two
lands on the right rank by itself. -/
def nearestRank (num den : Nat) : Nat :=
  let numUnits := num * twoTo 1074
  let shift := (numUnits / den).log2 - 52
  min (shift * twoTo 52 + roundHalfEven numUnits (den * twoTo shift)) infiniteRank

/-- The number of the given sign nearest to the magnitude `num / den`. -/
def ofRatio (negative : Bool) (num den : Nat) : Number :=
  ofRank negative (nearestRank num den)

/-- The number nearest to an integer. -/
def ofInt (value : Int) : Number := ofRatio (decide (value < 0)) value.natAbs 1

end Number
end DecisionTuples
