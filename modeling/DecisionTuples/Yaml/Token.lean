import DecisionTuples.Yaml.Scalar
import DecisionTuples.Yaml.Tag

/-!
# Tokens of YAML

A text is cut into tokens.  Mappings are written between braces, or as lines of
one indentation; the tokens `blockStart` and `blockEnd` stand where the
indentation of lines opens and closes a mapping.

What stands before a colon is a key, but that shows only at the colon.  So
whatever may be a key is remembered as a `Candidate`, and when the colon comes the
token `key` is put in front of it.  A candidate lasts for one line, and no longer
than 1024 characters.  Where lines of an open mapping begin, nothing but a key is
right, and a candidate that is left without its colon is an error.

Sequences are not read: they have no place in settings, and a text that holds one
has no tokens.
-/

namespace DecisionTuples
namespace Yaml

/-- The pieces of which a text consists. -/
inductive Token where
  | directive (directive : Directive)
  | documentStart
  | documentEnd
  | blockStart
  | blockEnd
  | braceOpen
  | braceClose
  | comma
  | key
  | value
  | anchor (name : List Char)
  | reference (name : List Char)
  | tag (tag : Tag)
  | scalar (style : Style) (text : List Char)
  deriving DecidableEq

/-- What may turn out to be a key: how many tokens stand before it, where it begins,
and whether it has to be a key. -/
structure Candidate where
  position : Nat
  index : Nat
  line : Nat
  column : Nat
  required : Bool

/-- The place is too far away for a colon that makes a key. -/
def Candidate.isStale (candidate : Candidate) (cursor : Cursor) : Bool :=
  candidate.line < cursor.line || candidate.index + 1024 < cursor.index

/-- The tokens at the front of a text, the latest first, and what the next ones
depend on: the place, the columns of the open mappings of lines with the innermost
first, the candidate at this level of braces and those at the levels around, and
whether a candidate may begin here. -/
structure Tokens where
  cursor : Cursor
  found : List Token
  columns : List Nat
  candidate : Option Candidate
  outer : List (Option Candidate)
  keyAllowed : Bool

namespace Tokens

/-- Nothing is read yet. -/
def start (text : List Char) : Tokens := ⟨.start text, [], [], none, [], true⟩

def inBraces (tokens : Tokens) : Bool := !tokens.outer.isEmpty

/-- The first column that lies inside the innermost mapping of lines. -/
def margin (tokens : Tokens) : Nat :=
  match tokens.columns with
  | [] => 0
  | column :: _ => column + 1

/-- With one more token, and past it. -/
def push (tokens : Tokens) (token : Token) (cursor : Cursor) : Tokens :=
  { tokens with found := token :: tokens.found, cursor := cursor }

/-- With a token put behind the first so many. -/
def insert (tokens : Tokens) (position : Nat) (token : Token) : Tokens :=
  { tokens with found := tokens.found.insertIdx (tokens.found.length - position) token }

def allowKey (tokens : Tokens) (allowed : Bool) : Tokens :=
  { tokens with keyAllowed := allowed }

/-! Candidates for keys. -/

/-- The candidate is no key. -/
def dropCandidate? (tokens : Tokens) : Option Tokens :=
  if tokens.candidate.any Candidate.required then none
  else some { tokens with candidate := none }

/-- Candidates that are too far away are no keys. -/
def dropStale? (tokens : Tokens) : Option Tokens :=
  let isStale (candidate : Candidate) := candidate.isStale tokens.cursor
  if (tokens.candidate :: tokens.outer).any (·.any fun c => isStale c && c.required) then none
  else
    let keep (candidate : Option Candidate) := candidate.filter fun c => !isStale c
    some { tokens with candidate := keep tokens.candidate, outer := tokens.outer.map keep }

/-- What begins here is a candidate, if one may begin; the next word is not. -/
def beginCandidate? (tokens : Tokens) : Option Tokens :=
  if tokens.keyAllowed then
    let place := tokens.cursor
    let required := !tokens.inBraces && tokens.columns.head? == some place.column
    let candidate : Candidate :=
      ⟨tokens.found.length, place.index, place.line, place.column, required⟩
    tokens.dropCandidate?.map fun tokens =>
      { tokens with candidate := some candidate, keyAllowed := false }
  else some tokens

/-! Mappings of lines. -/

/-- Open mappings end that begin at the given column or behind it. -/
def closeFrom (tokens : Tokens) (column : Nat) : Tokens :=
  if tokens.inBraces then tokens
  else
    let closed := tokens.columns.takeWhile (column ≤ ·)
    { tokens with
      found := List.replicate closed.length .blockEnd ++ tokens.found
      columns := tokens.columns.drop closed.length }

/-- A mapping begins at the given column in front of the token at the given position,
unless one is open there. -/
def openAt (tokens : Tokens) (position column : Nat) : Tokens :=
  if !tokens.inBraces && tokens.margin ≤ column then
    { tokens.insert position .blockStart with columns := column :: tokens.columns }
  else tokens

/-- A mapping begins here, unless one is open; a key or value without its key needs
a place where a candidate may begin. -/
def openHere? (tokens : Tokens) : Option Tokens :=
  if tokens.inBraces then some tokens
  else if tokens.keyAllowed then
    some (tokens.openAt tokens.found.length tokens.cursor.column)
  else none

/-! Single tokens. -/

/-- Past blanks, comments and ends of lines.  Tabulators are blanks only between
braces and where no candidate may begin.  A byte order mark may begin a line. -/
def skipGap : Nat → Tokens → Tokens
  | 0, tokens => tokens
  | bound + 1, tokens =>
    let place := tokens.cursor
    let first :=
      if place.column == 0 && place.sees (·.toNat == 0xFEFF) then place.skip 1 else place
    let tabs := tokens.inBraces || !tokens.keyAllowed
    let behind := (first.skipWhile fun c => c == ' ' || (tabs && c == '\t')).skipComment
    if behind.sees isBreak then
      skipGap bound { tokens with
        cursor := behind.skipBreak
        keyAllowed := tokens.keyAllowed || !tokens.inBraces }
    else { tokens with cursor := behind }

/-- A directive, or a mark between documents. -/
def border? (tokens : Tokens) (token : Token) (behind : Cursor) : Option Tokens :=
  (tokens.closeFrom 0).dropCandidate?.map fun tokens =>
    (tokens.push token behind).allowKey false

/-- An opening brace. -/
def openBrace? (tokens : Tokens) : Option Tokens :=
  tokens.beginCandidate?.map fun tokens =>
    { tokens.push .braceOpen (tokens.cursor.skip 1) with
      candidate := none
      outer := tokens.candidate :: tokens.outer
      keyAllowed := true }

/-- A closing brace. -/
def closeBrace? (tokens : Tokens) : Option Tokens := do
  let tokens ← tokens.dropCandidate?
  match tokens.outer with
  | [] => none
  | candidate :: outer =>
    return { tokens.push .braceClose (tokens.cursor.skip 1) with
      candidate := candidate
      outer := outer
      keyAllowed := false }

/-- A comma between fields. -/
def comma? (tokens : Tokens) : Option Tokens :=
  tokens.dropCandidate?.map fun tokens =>
    (tokens.push .comma (tokens.cursor.skip 1)).allowKey true

/-- A question mark that announces a key. -/
def key? (tokens : Tokens) : Option Tokens := do
  let tokens ← tokens.openHere?
  let tokens ← tokens.dropCandidate?
  return (tokens.push .key (tokens.cursor.skip 1)).allowKey !tokens.inBraces

/-- A colon.  It makes the candidate a key. -/
def value? (tokens : Tokens) : Option Tokens :=
  let behind := tokens.cursor.skip 1
  match tokens.candidate with
  | some key =>
    let tokens := (tokens.insert key.position .key).openAt key.position key.column
    some { tokens.push .value behind with candidate := none, keyAllowed := false }
  | none =>
    tokens.openHere?.map fun tokens =>
      (tokens.push .value behind).allowKey !tokens.inBraces

/-- What follows the name of an anchor at once. -/
def endsName (text : List Char) : Bool :=
  endsWord text || text.head?.any fun c =>
    c == '?' || c == ':' || c == ',' || c == ']' || c == '\x7d' || c == '%' || c == '@' ||
      c.toNat == 96

/-- An anchor, or a reference to one. -/
def name? (tokens : Tokens) (make : List Char → Token) : Option Tokens := do
  let tokens ← tokens.beginCandidate?
  let name := (tokens.cursor.rest.drop 1).takeWhile isNameChar
  let behind := tokens.cursor.skip (name.length + 1)
  if name.isEmpty || !endsName behind.rest then none
  else return tokens.push (make name) behind

def tag? (tokens : Tokens) : Option Tokens := do
  let tokens ← tokens.beginCandidate?
  let (tag, behind) ← Tag.read? tokens.inBraces tokens.cursor
  return tokens.push (.tag tag) behind

/-- A block scalar, after whose end a candidate may begin. -/
def block? (tokens : Tokens) (style : Style) : Option Tokens := do
  let tokens ← tokens.dropCandidate?
  let (text, behind) ← readBlock? style tokens.margin (tokens.cursor.skip 1)
  return (tokens.push (.scalar style text) behind).allowKey true

/-- A scalar between quotes. -/
def quoted? (tokens : Tokens) (style : Style)
    (read : Nat → Cursor → Option (List Char × Cursor)) : Option Tokens := do
  let tokens ← tokens.beginCandidate?
  let (text, behind) ← read (tokens.cursor.rest.length + 1) (tokens.cursor.skip 1)
  return tokens.push (.scalar style text) behind

/-- A plain scalar.  Where it ends with a line, a candidate may begin. -/
def plain? (tokens : Tokens) : Option Tokens := do
  let tokens ← tokens.beginCandidate?
  let (text, behind, broken) ←
    readPlain tokens.inBraces tokens.margin (tokens.cursor.rest.length + 1) tokens.cursor
  return (tokens.push (.scalar .plain text) behind).allowKey (tokens.keyAllowed || broken)

/-- The token that begins with `c`, where `rest` stands behind. -/
def next? (tokens : Tokens) (c : Char) (rest : List Char) : Option Tokens :=
  let place := tokens.cursor
  if c == '%' && place.column == 0 then do
    let (directive, behind) ← Directive.read? place
    tokens.border? (.directive directive) behind
  else if place.atMark then
    tokens.border? (if c == '-' then .documentStart else .documentEnd) (place.skip 3)
  else if (c == '?' || c == ':') && (tokens.inBraces || endsWord rest) then
    if c == '?' then tokens.key? else tokens.value?
  else if c == '-' && endsWord rest then none
  else match c with
    | '\x7b' => tokens.openBrace?
    | '\x7d' => tokens.closeBrace?
    | ',' => tokens.comma?
    | '*' => tokens.name? .reference
    | '&' => tokens.name? .anchor
    | '!' => tokens.tag?
    | '\x27' => tokens.quoted? .singleQuoted readSingle
    | '"' => tokens.quoted? .doubleQuoted readDouble
    | '|' => if tokens.inBraces then none else tokens.block? .literal
    | '>' => if tokens.inBraces then none else tokens.block? .folded
    | _ => if beginsPlain tokens.inBraces c rest then tokens.plain? else none

/-- All tokens of the text, within a bound on their number. -/
def complete? : Nat → Tokens → Option (List Token)
  | 0, _ => none
  | bound + 1, tokens => do
    let tokens ← (skipGap (bound + 1) tokens).dropStale?
    let tokens := tokens.closeFrom (tokens.cursor.column + 1)
    match tokens.cursor.rest with
    | [] => (tokens.closeFrom 0).dropCandidate?.map fun tokens => tokens.found.reverse
    | c :: rest => (tokens.next? c rest).bind (complete? bound)

end Tokens

/-- The tokens of a text. -/
def tokens? (text : List Char) : Option (List Token) :=
  if text.all isAllowed then (Tokens.start text).complete? (text.length + 1) else none

end Yaml
end DecisionTuples
