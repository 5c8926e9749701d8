/-!
# Places in a YAML text

YAML gives meaning to lines and columns, so whatever reads it carries its place
along.  A `Cursor` is the text that is still to be read with that place; columns
and lines count from zero.

Five characters end a line, and a carriage return with a line feed behind it
ends one line only.
-/

namespace DecisionTuples
namespace Yaml

/-- The characters of which a text may consist. -/
def isAllowed (c : Char) : Bool :=
  c == '\t' || c == '\n' || c == '\r' || (0x20 ≤ c.toNat && c.toNat ≤ 0x7E) ||
    c.toNat == 0x85 || (0xA0 ≤ c.toNat && c.toNat ≤ 0xFFFD) || 0x10000 ≤ c.toNat

def isSpace (c : Char) : Bool := c == ' ' || c == '\t'

/-- The characters that end a line. -/
def isBreak (c : Char) : Bool :=
  c == '\n' || c == '\r' || c.toNat == 0x85 || c.toNat == 0x2028 || c.toNat == 0x2029

/-- The character for which the end of a line stands inside a scalar. -/
def breakText (c : Char) : Char := if c.toNat < 0x2028 then '\n' else c

/-- The characters of the names of anchors, tag handles and directives. -/
def isNameChar (c : Char) : Bool := c.isAlphanum || c == '_' || c == '-'

/-- The characters that give structure to collections between braces. -/
def isIndicator (c : Char) : Bool :=
  c == ',' || c == '[' || c == ']' || c == '\x7b' || c == '\x7d'

/-- A word ends before a blank, at the end of a line and at the end of the text. -/
def endsWord (text : List Char) : Bool := text.head?.all fun c => isSpace c || isBreak c

/-- The text that is still to be read, and its place. -/
structure Cursor where
  rest : List Char
  index : Nat
  line : Nat
  column : Nat

namespace Cursor

/-- The front of a text. -/
def start (text : List Char) : Cursor := ⟨text, 0, 0, 0⟩

/-- Past the given number of characters, none of which ends a line. -/
def skip (cursor : Cursor) (count : Nat) : Cursor :=
  { cursor with
    rest := cursor.rest.drop count
    index := cursor.index + count
    column := cursor.column + count }

/-- Past all characters with a property that no end of a line has. -/
def skipWhile (cursor : Cursor) (p : Char → Bool) : Cursor :=
  cursor.skip (cursor.rest.takeWhile p).length

/-- Past the end of a line. -/
def skipBreak (cursor : Cursor) : Cursor :=
  let length := match cursor.rest with
    | '\r' :: '\n' :: _ => 2
    | _ => 1
  ⟨cursor.rest.drop length, cursor.index + length, cursor.line + 1, 0⟩

/-- The next character has the property. -/
def sees (cursor : Cursor) (p : Char → Bool) : Bool := cursor.rest.head?.any p

/-- A line begins here with three hyphens or three points that stand alone. -/
def atMark (cursor : Cursor) : Bool :=
  cursor.column == 0 && endsWord (cursor.rest.drop 3) &&
    (cursor.rest.take 3 == ['-', '-', '-'] || cursor.rest.take 3 == ['.', '.', '.'])

/-- Past a comment, if one begins here. -/
def skipComment (cursor : Cursor) : Cursor :=
  if cursor.sees (· == '#') then cursor.skipWhile fun c => !isBreak c else cursor

/-- The next line, where nothing but blanks and a comment is left of this one. -/
def nextLine? (cursor : Cursor) : Option Cursor :=
  let behind := (cursor.skipWhile isSpace).skipComment
  match behind.rest with
  | [] => some behind
  | c :: _ => if isBreak c then some behind.skipBreak else none

end Cursor
end Yaml
end DecisionTuples
