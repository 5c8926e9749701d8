import DecisionTuples.Hexadecimal
import DecisionTuples.Json.Basic
import DecisionTuples.Number.Decimal

/-!
# Reading JSON text

A text is read as one value with blanks around it, or not at all.  A string may
hold any character but quotes, backslashes and control characters, and escapes
for all of them; an escaped surrogate must be the first half of a pair whose
second half follows.  A repeated key keeps the value read last.

Every number is read as the nearest one there is; text without fraction and
exponent is kept as an integer, negative zero excepted.  A number that is nearest
to no finite one, such as `1e400`, is refused.  So is a text with more than
`maxOpen` arrays and objects open at once.  Both limits are about text: a value
that no text says may still be decoded.

Readers take the front of a text and give the rest back.  They carry a bound on
their number of steps; every step takes at least one character, so the length of
the text is bound enough.  Beside it they carry the room there is for opening
further arrays and objects.
-/

namespace DecisionTuples
namespace Json

/-- The text after the blanks at its front. -/
def skipBlanks (text : List Char) : List Char :=
  text.dropWhile fun c => c == ' ' || c == '\t' || c == '\n' || c == '\r'

/-- The code unit of four hexadecimal digits. -/
def codeUnit? (a b c d : Char) : Option Nat := do
  let a ← hexValue? a
  let b ← hexValue? b
  let c ← hexValue? c
  let d ← hexValue? d
  return ((a * 16 + b) * 16 + c) * 16 + d

/-- What an escaped code unit gives: a character, or the first half of a pair. -/
inductive Unit16 where
  | char (c : Char)
  | firstHalf (unit : Nat)

/-- What a code unit gives after the first half of a pair, or after none.  A second
half is only right after a first one, and a first half has to be followed by
one. -/
def combine? : Option Nat → Nat → Option Unit16
  | none, unit =>
    if 0xD800 ≤ unit ∧ unit < 0xDC00 then some (.firstHalf unit)
    else if 0xDC00 ≤ unit ∧ unit < 0xE000 then none
    else some (.char (.ofNat unit))
  | some first, unit =>
    if 0xDC00 ≤ unit ∧ unit < 0xE000 then
      some (.char (.ofNat (0x10000 + (first - 0xD800) * 0x400 + (unit - 0xDC00))))
    else none

/-- The character that a single letter escapes. -/
def unescape? : Char → Option Char
  | '"' => some '"'
  | '\\' => some '\\'
  | '/' => some '/'
  | 'b' => some (.ofNat 8)
  | 'f' => some (.ofNat 12)
  | 'n' => some '\n'
  | 'r' => some '\r'
  | 't' => some '\t'
  | _ => none

/-- The characters up to the closing quote, where `pending` is the first half of a
pair that was just read. -/
def readChars (pending : Option Nat) : List Char → Option (List Char × List Char)
  | [] => none
  | '\\' :: 'u' :: a :: b :: c :: d :: rest =>
    match (codeUnit? a b c d).bind (combine? pending) with
    | none => none
    | some (.firstHalf unit) => readChars (some unit) rest
    | some (.char found) =>
      (readChars none rest).map fun (chars, rest) => (found :: chars, rest)
  | '\\' :: letter :: rest =>
    match pending, unescape? letter with
    | none, some found => (readChars none rest).map fun (chars, rest) => (found :: chars, rest)
    | _, _ => none
  | '"' :: rest => if pending.isSome then none else some ([], rest)
  | c :: rest =>
    if pending.isSome ∨ c.toNat < 32 then none
    else (readChars none rest).map fun (chars, rest) => (c :: chars, rest)

/-- A string, after its opening quote. -/
def readString? (text : List Char) : Option (String × List Char) :=
  (readChars none text).map fun (chars, rest) => (.ofList chars, rest)

/-- One digit or more. -/
def readDigits? (text : List Char) : Option (List Char × List Char) :=
  match text.takeWhile Char.isDigit with
  | [] => none
  | digits => some (digits, text.dropWhile Char.isDigit)

/-- The whole part of a number: a zero alone, or digits that begin with none. -/
def readWhole? : List Char → Option (List Char × List Char)
  | '0' :: rest => some (['0'], rest)
  | text => readDigits? text

/-- The digits after a point, if there is a point. -/
def readFraction? : List Char → Option (Option (List Char) × List Char)
  | '.' :: rest => do
    let (digits, rest) ← readDigits? rest
    return (some digits, rest)
  | text => some (none, text)

/-- The digits of an exponent with the sign in front of them. -/
def readSigned? : List Char → Option (Int × List Char)
  | '-' :: rest => do
    let (digits, rest) ← readDigits? rest
    return (-(Nat.ofDigitChars 10 digits 0 : Int), rest)
  | '+' :: rest => do
    let (digits, rest) ← readDigits? rest
    return ((Nat.ofDigitChars 10 digits 0 : Int), rest)
  | text => do
    let (digits, rest) ← readDigits? text
    return ((Nat.ofDigitChars 10 digits 0 : Int), rest)

/-- The exponent, if there is one. -/
def readExponent? : List Char → Option (Option Int × List Char)
  | 'e' :: rest => (readSigned? rest).map fun (exponent, rest) => (some exponent, rest)
  | 'E' :: rest => (readSigned? rest).map fun (exponent, rest) => (some exponent, rest)
  | text => some (none, text)

/-- The value of a number with the given parts. -/
def ofParts (negative : Bool) (whole : List Char) :
    Option (List Char) → Option Int → Json
  | none, none =>
    let magnitude := Nat.ofDigitChars 10 whole 0
    if negative then
      if magnitude = 0 then num (.ofRank true 0) else int (-(magnitude : Int))
    else int magnitude
  | fraction, exponent =>
    num (((Decimal.ofDigits whole (fraction.getD [])).shift (exponent.getD 0)).toNumber negative)

/-- A number without its sign. -/
def readMagnitude? (negative : Bool) (text : List Char) : Option (Json × List Char) := do
  let (whole, rest) ← readWhole? text
  let (fraction, rest) ← readFraction? rest
  let (exponent, rest) ← readExponent? rest
  return (ofParts negative whole fraction exponent, rest)

/-- A number, however large. -/
def readNumeral? : List Char → Option (Json × List Char)
  | '-' :: rest => readMagnitude? true rest
  | text => readMagnitude? false text

/-- The value is no number, or one that is nearest to a finite one. -/
def inRange : Json → Bool
  | int value => (Number.ofInt value).isFinite
  | num value => value.isFinite
  | _ => true

/-- How many arrays and objects may be open at once. -/
def maxOpen : Nat := 127

/-- The fields with the given one in front, unless its key comes again. -/
def addField (key : String) (value : Json) (fields : List (String × Json)) :
    List (String × Json) :=
  if (lookup? key fields).isSome then fields else (key, value) :: fields

mutual

/-- One value with the blanks in front of it. -/
def readValue : Nat → Nat → List Char → Option (Json × List Char)
  | 0, _, _ => none
  | bound + 1, room, text =>
    match skipBlanks text with
    | 'n' :: 'u' :: 'l' :: 'l' :: rest => some (null, rest)
    | 't' :: 'r' :: 'u' :: 'e' :: rest => some (bool true, rest)
    | 'f' :: 'a' :: 'l' :: 's' :: 'e' :: rest => some (bool false, rest)
    | '"' :: rest => (readString? rest).map fun (value, rest) => (str value, rest)
    | '[' :: rest =>
      match room with
      | 0 => none
      | room + 1 =>
        match skipBlanks rest with
        | ']' :: rest => some (arr [], rest)
        | rest => (readItems bound room rest).map fun (items, rest) => (arr items, rest)
    | '\x7b' :: rest =>
      match room with
      | 0 => none
      | room + 1 =>
        match skipBlanks rest with
        | '\x7d' :: rest => some (obj [], rest)
        | rest => (readFields bound room rest).map fun (fields, rest) => (obj fields, rest)
    | text => (readNumeral? text).filter fun (found, _) => found.inRange

/-- Items up to the closing bracket, at least one. -/
def readItems : Nat → Nat → List Char → Option (List Json × List Char)
  | 0, _, _ => none
  | bound + 1, room, text =>
    match readValue bound room text with
    | none => none
    | some (item, rest) =>
      match skipBlanks rest with
      | ']' :: rest => some ([item], rest)
      | ',' :: rest =>
        (readItems bound room rest).map fun (items, rest) => (item :: items, rest)
      | _ => none

/-- Fields up to the closing brace, at least one. -/
def readFields : Nat → Nat → List Char → Option (List (String × Json) × List Char)
  | 0, _, _ => none
  | bound + 1, room, text =>
    match skipBlanks text with
    | '"' :: rest =>
      match readString? rest with
      | none => none
      | some (key, rest) =>
        match skipBlanks rest with
        | ':' :: rest =>
          match readValue bound room rest with
          | none => none
          | some (value, rest) =>
            match skipBlanks rest with
            | '\x7d' :: rest => some ([(key, value)], rest)
            | ',' :: rest =>
              (readFields bound room rest).map fun (fields, rest) =>
                (addField key value fields, rest)
            | _ => none
        | _ => none
    | _ => none

end

/-- The value that a text describes. -/
def ofText? (text : List Char) : Option Json := do
  let (json, rest) ← readValue (2 * text.length + 2) maxOpen text
  if skipBlanks rest = [] then some json else none

end Json
end DecisionTuples
