import DecisionTuples.Number.Shortest

/-!
# The two texts of a number

Messages and displayed intervals write a number *plainly*: shortest digits in
positional form, never an exponent, no trailing `.0`.  Exchanged data writes
the same number in *data form*: positional with at least one decimal place
while the leading digit stands between `10 ^ -5` and `10 ^ 15`, and in
scientific form with a signed exponent beyond.

Both forms keep the sign of zero.  Data form exists for finite numbers only.
-/

namespace DecisionTuples
namespace Decimal

/-- The digits of a natural number. -/
def digitChars (n : Nat) : List Char := Nat.toDigits 10 n

/-- The positional form: whole digits, and a point with the fraction if there is
one. -/
def positional (d : Decimal) : List Char :=
  let digits := digitChars d.digits
  let places := (-d.exponent).toNat
  if places = 0 then digits ++ List.replicate d.exponent.toNat '0'
  else if places < digits.length then
    digits.take (digits.length - places) ++ '.' :: digits.drop (digits.length - places)
  else '0' :: '.' :: (List.replicate (places - digits.length) '0' ++ digits)

/-- The power of ten of the first digit. -/
def leadingExponent (d : Decimal) : Int := d.exponent + (digitChars d.digits).length - 1

/-- The scientific form: one digit, the others after a point, and the exponent
with its sign. -/
def scientific (d : Decimal) : List Char :=
  let mantissa := match digitChars d.digits with
    | first :: second :: rest => first :: '.' :: second :: rest
    | digits => digits
  let sign := if d.leadingExponent < 0 then '-' else '+'
  mantissa ++ 'e' :: sign :: digitChars d.leadingExponent.natAbs

/-- The form used in exchanged data. -/
def dataForm (d : Decimal) : List Char :=
  if -5 ≤ d.leadingExponent ∧ d.leadingExponent < 16 then
    if 0 ≤ d.exponent then d.positional ++ ['.', '0'] else d.positional
  else d.scientific

end Decimal

namespace Number

/-- A text under its sign. -/
def withSign (negative : Bool) (text : List Char) : List Char :=
  if negative then '-' :: text else text

/-- The plain form, with the given word for infinity.  Digits that are equally
near go upward. -/
def plainChars (infinite : String) : Number → List Char
  | nan => ['N', 'a', 'N']
  | signed negative rank =>
    withSign negative <|
      if rank.val = infiniteRank then infinite.toList
      else if rank.val = 0 then ['0']
      else (Decimal.shortest .upward rank.val).positional

/-- The text of an interval bound, which is also how the language writes one. -/
def boundText (a : Number) : String := .ofList (a.plainChars "Inf")

/-- The text of any other displayed number. -/
def plainText (a : Number) : String := .ofList (a.plainChars "inf")

/-- The data form of a finite number.  Digits that are equally near go to the
even one. -/
def dataChars? : Number → Option (List Char)
  | nan => none
  | signed negative rank =>
    if rank.val = infiniteRank then none
    else if rank.val = 0 then some (withSign negative ['0', '.', '0'])
    else some (withSign negative (Decimal.shortest .toEven rank.val).dataForm)

end Number
end DecisionTuples
