import DecisionTuples.Hexadecimal
import DecisionTuples.Yaml.Cursor

/-!
# Tags of YAML

A tag says of what type a node is.  It is written as a handle and a suffix, and
the directives of the document say for what a handle stands; or it is written in
full between angle brackets.

A tag is a sequence of octets, each of which is kept as the character with its
number.  Beside the characters that may be written, any octets may be escaped as
long as their first bits are those of encoded characters.  A null octet ends the
tag.

There are two directives: one for the version of YAML, and one for a handle.
-/

namespace DecisionTuples
namespace Yaml

/-- A tag as it is written.  A tag in full has an empty handle. -/
structure Tag where
  handle : List Char
  suffix : List Char
  deriving DecidableEq

/-- The characters of tags.  In a tag in full three more may occur. -/
def isTagChar (inFull : Bool) (c : Char) : Bool :=
  isNameChar c || c ∈ ";/?:@&=+$.!~*()".toList || c == '\x27' ||
    (inFull && (c == ',' || c == '[' || c == ']'))

/-- How many octets follow the octet with which a character begins. -/
def octetsBehind? (octet : Nat) : Option Nat :=
  if octet < 0x80 then some 0
  else if octet < 0xC0 then none
  else if octet < 0xE0 then some 1
  else if octet < 0xF0 then some 2
  else if octet < 0xF8 then some 3
  else none

/-- The octets at the front of a text, and what follows them, where so many octets
are missing from the character before. -/
def takeOctets? (inFull : Bool) : Nat → List Char → Option (List Char × List Char)
  | missing, '%' :: high :: low :: rest => do
    let octet ← hexNumber? [high, low]
    let missing ← match missing with
      | 0 => octetsBehind? octet
      | others + 1 => if 0x80 ≤ octet ∧ octet < 0xC0 then some others else none
    let (octets, behind) ← takeOctets? inFull missing rest
    return (.ofNat octet :: octets, behind)
  | 0, c :: rest =>
    if c == '%' then none
    else if isTagChar inFull c then
      (takeOctets? inFull 0 rest).map fun (octets, behind) => (c :: octets, behind)
    else some ([], c :: rest)
  | 0, [] => some ([], [])
  | _ + 1, _ => none

/-- The octets that begin here up to a null octet, how many characters they all
take, and the place behind them. -/
def readOctets? (inFull : Bool) (cursor : Cursor) : Option (List Char × Nat × Cursor) := do
  let (octets, rest) ← takeOctets? inFull 0 cursor.rest
  let length := cursor.rest.length - rest.length
  return (octets.takeWhile fun c => c.toNat != 0, length, cursor.skip length)

/-- A handle, or the front of a suffix, that begins here with an exclamation mark: the
name behind the mark, whether a second mark follows it, and the place behind. -/
def readHandle (cursor : Cursor) : List Char × Bool × Cursor :=
  let name := (cursor.rest.drop 1).takeWhile isNameChar
  let behind := cursor.skip (name.length + 1)
  if behind.sees (· == '!') then (name, true, behind.skip 1) else (name, false, behind)

/-- A handle with two exclamation marks. -/
def closedHandle (name : List Char) : List Char := '!' :: (name ++ ['!'])

namespace Tag

/-- The tag in full that begins here, behind its opening bracket. -/
def readFull? (cursor : Cursor) : Option (Tag × Cursor) := do
  let (suffix, length, behind) ← readOctets? true cursor
  if length = 0 || !behind.sees (· == '>') then none
  else return (⟨[], suffix⟩, behind.skip 1)

/-- The tag with a handle that begins here.  The handle of a single mark may be
followed by nothing. -/
def readShort? (cursor : Cursor) : Option (Tag × Cursor) := do
  let (name, isClosed, start) := readHandle cursor
  let (more, length, behind) ← readOctets? false start
  match isClosed, name ++ more with
  | true, _ => if length = 0 then none else return (⟨closedHandle name, more⟩, behind)
  | false, [] => return (⟨[], ['!']⟩, behind)
  | false, suffix => return (⟨['!'], suffix⟩, behind)

/-- The tag that begins here. -/
def read? (inBraces : Bool) (cursor : Cursor) : Option (Tag × Cursor) := do
  let (tag, behind) ←
    if cursor.rest[1]? = some '<' then readFull? (cursor.skip 2) else readShort? cursor
  if endsWord behind.rest || (inBraces && behind.sees (· == ',')) then return (tag, behind)
  else none

end Tag

/-- What the head of a document says. -/
inductive Directive where
  | version (major minor : Nat)
  | handle (name : List Char) (stem : List Char)
  deriving DecidableEq

/-- The number that begins here, of nine digits at most, and the place behind it. -/
def readNumber? (cursor : Cursor) : Option (Nat × Cursor) :=
  let digits := cursor.rest.takeWhile Char.isDigit
  if digits.isEmpty || 9 < digits.length then none
  else
    let number := digits.foldl (fun value c => value * 10 + (c.toNat - '0'.toNat)) 0
    some (number, cursor.skip digits.length)

namespace Directive

/-- The version that begins here. -/
def readVersion? (cursor : Cursor) : Option (Directive × Cursor) := do
  let (major, point) ← readNumber? cursor
  if !point.sees (· == '.') then none
  else
    let (minor, behind) ← readNumber? (point.skip 1)
    return (version major minor, behind)

/-- The declaration of a handle that begins here. -/
def readDeclaration? (cursor : Cursor) : Option (Directive × Cursor) := do
  let (name, isClosed, behind) := readHandle cursor
  let (stem, length, last) ← readOctets? true (behind.skipWhile isSpace)
  if cursor.sees (· == '!') && (isClosed || name.isEmpty) && behind.sees isSpace &&
      length ≠ 0 && endsWord last.rest then
    return (handle (if isClosed then closedHandle name else ['!']) stem, last)
  else none

/-- The directive that begins here with a per cent sign, and the line behind it. -/
def read? (cursor : Cursor) : Option (Directive × Cursor) := do
  let name := (cursor.rest.drop 1).takeWhile isNameChar
  let behind := cursor.skip (name.length + 1)
  let start := behind.skipWhile isSpace
  let (directive, last) ← match endsWord behind.rest, String.ofList name with
    | true, "YAML" => readVersion? start
    | true, "TAG" => readDeclaration? start
    | _, _ => none
  let next ← last.nextLine?
  return (directive, next)

end Directive

end Yaml
end DecisionTuples
