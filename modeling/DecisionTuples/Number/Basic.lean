/-!
# Numbers

The numbers that conditions compare with: sixty-four bit binary floating-point
values, kept as exact data.  A number is its sign and its *rank*, the place of
its magnitude among all magnitudes counted upward from zero.  Rank is the
ordinary bit pattern without the sign, so the order of ranks is the order of
magnitudes and no arithmetic is needed to compare two numbers.

* `infiniteRank` is the rank of infinity, one past the largest finite one;
* `units` is the magnitude of a finite rank, as a multiple of the least
  positive magnitude `2 ^ -1074`;
* `nan` is one value: the many patterns that are not numbers are not told
  apart.

Two relations of sameness live here and are not the same.  `=` is identity of
data.  `==` is equality of values, for which the two zeros are equal and `nan`
equals nothing, itself included.
-/

namespace DecisionTuples

/-- The power of two with the given exponent. -/
def twoTo (exponent : Nat) : Nat := Nat.pow 2 exponent

/-- The power of ten with the given exponent. -/
def tenTo (exponent : Nat) : Nat := Nat.pow 10 exponent

/-- The rank of infinity: all exponent places filled, no fraction. -/
def infiniteRank : Nat := 2047 * twoTo 52

/-- A binary floating-point value. -/
inductive Number where
  /-- The value that is no number and is in no order with any. -/
  | nan
  /-- The value of the given sign whose magnitude has the given rank. -/
  | signed (negative : Bool) (rank : Fin (infiniteRank + 1))
  deriving DecidableEq

namespace Number

/-- The number of the given sign and rank, with ranks past infinity cut down to
infinity. -/
def ofRank (negative : Bool) (rank : Nat) : Number :=
  signed negative ⟨min rank infiniteRank, by omega⟩

/-- Positive zero. -/
def zero : Number := ofRank false 0

/-- The value past every positive number. -/
def infinity : Number := ofRank false infiniteRank

/-- The value before every negative number. -/
def negativeInfinity : Number := ofRank true infiniteRank

/-- The magnitude of a finite rank as a multiple of `2 ^ -1074`.  Below `2 ^ 53`
neighbouring ranks are one unit apart; from there on the step doubles with
every `2 ^ 52` ranks. -/
def units (rank : Nat) : Nat :=
  if rank < twoTo 53 then rank
  else (twoTo 52 + rank % twoTo 52) * twoTo (rank / twoTo 52 - 1)

/-- The place on the line, zero being at `0` and each next magnitude one place
further out.  `nan` has no place. -/
def place? : Number → Option Int
  | nan => none
  | signed true rank => some (-(rank.val : Int))
  | signed false rank => some (rank.val : Int)

def isNaN : Number → Bool
  | nan => true
  | signed _ _ => false

/-- Neither infinite nor `nan`. -/
def isFinite : Number → Bool
  | nan => false
  | signed _ rank => rank.val < infiniteRank

/-- Both values have a place and the places stand in the relation `rel`. -/
def Related (rel : Int → Int → Prop) (a b : Number) : Prop :=
  match a.place?, b.place? with
  | some p, some q => rel p q
  | _, _ => False

instance (rel : Int → Int → Prop) [DecidableRel rel] (a b : Number) :
    Decidable (Related rel a b) := by
  unfold Related
  split <;> infer_instance

instance : LT Number := ⟨Related (· < ·)⟩

instance : LE Number := ⟨Related (· ≤ ·)⟩

instance (a b : Number) : Decidable (a < b) :=
  inferInstanceAs (Decidable (Related (· < ·) a b))

instance (a b : Number) : Decidable (a ≤ b) :=
  inferInstanceAs (Decidable (Related (· ≤ ·) a b))

/-- Equality of values: the same place on the line. -/
instance : BEq Number := ⟨fun a b => decide (Related (· = ·) a b)⟩

/-- Strictly above zero. -/
def isPositive (a : Number) : Bool := decide (zero < a)

theorem lt_irrefl (a : Number) : ¬ a < a := by
  change ¬ Related (· < ·) a a
  unfold Related
  split
  · simp_all
  · exact id

/-- `nan` is before nothing. -/
theorem not_nan_lt (a : Number) : ¬ nan < a := id

/-- Nothing is before `nan`. -/
theorem not_lt_nan (a : Number) : ¬ a < nan := by
  cases a with
  | nan => exact id
  | signed negative rank => cases negative <;> exact id

end Number
end DecisionTuples
