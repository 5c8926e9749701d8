import DecisionTuples.Json.Basic
import DecisionTuples.Number.Text

/-!
# Writing JSON text

Values are written without blanks, fields in the order in which they are given.
In strings only quotes, backslashes and control characters are escaped; all
other characters stand for themselves.  Numbers that are not finite have no
text and are written as `null`.

Each function writes in front of a text that follows, so that what is written
last is never copied.
-/

namespace DecisionTuples
namespace Json

/-- A character as it stands between quotes. -/
def escapeChar (c : Char) : List Char :=
  if c = '"' then ['\\', '"']
  else if c = '\\' then ['\\', '\\']
  else if c = '\n' then ['\\', 'n']
  else if c = '\r' then ['\\', 'r']
  else if c = '\t' then ['\\', 't']
  else if c.toNat = 8 then ['\\', 'b']
  else if c.toNat = 12 then ['\\', 'f']
  else if c.toNat < 32 then
    ['\\', 'u', '0', '0', (c.toNat / 16).digitChar, (c.toNat % 16).digitChar]
  else [c]

/-- Escaped characters and the closing quote, in front of a text. -/
def writeChars : List Char → List Char → List Char
  | [], rest => '"' :: rest
  | c :: chars, rest => escapeChar c ++ writeChars chars rest

/-- A string between quotes, in front of a text. -/
def writeString (value : String) (rest : List Char) : List Char :=
  '"' :: writeChars value.toList rest

/-- An integer, in front of a text. -/
def writeInt (value : Int) (rest : List Char) : List Char :=
  let digits := Nat.toDigits 10 value.natAbs ++ rest
  if value < 0 then '-' :: digits else digits

mutual

/-- The text of a value, in front of a text. -/
def write : Json → List Char → List Char
  | null, rest => 'n' :: 'u' :: 'l' :: 'l' :: rest
  | bool true, rest => 't' :: 'r' :: 'u' :: 'e' :: rest
  | bool false, rest => 'f' :: 'a' :: 'l' :: 's' :: 'e' :: rest
  | int value, rest => writeInt value rest
  | num value, rest =>
    match value.dataChars? with
    | some digits => digits ++ rest
    | none => 'n' :: 'u' :: 'l' :: 'l' :: rest
  | str value, rest => writeString value rest
  | arr [], rest => '[' :: ']' :: rest
  | arr (item :: items), rest => '[' :: item.write (writeItems items rest)
  | obj [], rest => '\x7b' :: '\x7d' :: rest
  | obj ((key, value) :: fields), rest =>
    '\x7b' :: writeString key (':' :: value.write (writeFields fields rest))

/-- Further items and the closing bracket. -/
def writeItems : List Json → List Char → List Char
  | [], rest => ']' :: rest
  | item :: items, rest => ',' :: item.write (writeItems items rest)

/-- Further fields and the closing brace. -/
def writeFields : List (String × Json) → List Char → List Char
  | [], rest => '\x7d' :: rest
  | (key, value) :: fields, rest =>
    ',' :: writeString key (':' :: value.write (writeFields fields rest))

end

/-- The text of a value. -/
def text (json : Json) : String := .ofList (json.write [])

end Json
end DecisionTuples
