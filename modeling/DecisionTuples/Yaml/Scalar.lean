import DecisionTuples.Hexadecimal
import DecisionTuples.Yaml.Cursor

/-!
# Scalars of YAML

A scalar is a text in one of five styles.  Plain and quoted scalars go on over
the ends of lines, which are folded: a single end of a line becomes a space, and
of several ones all but the first remain.  Block scalars keep their lines, or
fold them, and are ended by their indentation.

Readers give the text of the scalar and the place behind it.  Those that repeat
a step carry a bound on their number of steps; every step takes at least one
character, so a bound above the length of the text is never reached.
-/

namespace DecisionTuples
namespace Yaml

/-- The style in which a scalar is written. -/
inductive Style where
  | plain
  | singleQuoted
  | doubleQuoted
  | literal
  | folded
  deriving DecidableEq

/-! Gaps inside scalars. -/

/-- The blanks before the first end of a line, and all ends of lines. -/
structure Gap where
  blanks : List Char
  breaks : List Char

namespace Gap

/-- The gap goes over the end of a line. -/
def isBroken (gap : Gap) : Bool := !gap.breaks.isEmpty

/-- For what a gap between two runs of a scalar stands. -/
def text (gap : Gap) : List Char :=
  match gap.breaks with
  | [] => gap.blanks
  | ['\n'] => [' ']
  | '\n' :: others => others
  | breaks => breaks

end Gap

/-- The gap that begins here, and the place behind it.  `broken` says that the gap
already goes over the end of a line; from there on no tabulator may stand before
the column `indent`. -/
def readGap (indent : Nat) : Bool → Nat → Cursor → Option (Gap × Cursor)
  | _, 0, _ => none
  | broken, bound + 1, cursor =>
    match cursor.rest with
    | [] => some (⟨[], []⟩, cursor)
    | c :: _ =>
      if isSpace c then
        if broken && c == '\t' && decide (cursor.column < indent) then none
        else (readGap indent broken bound (cursor.skip 1)).map fun (gap, behind) =>
          (if broken then gap else { gap with blanks := c :: gap.blanks }, behind)
      else if isBreak c then
        (readGap indent true bound cursor.skipBreak).map fun (gap, behind) =>
          ({ gap with breaks := breakText c :: gap.breaks }, behind)
      else some (⟨[], []⟩, cursor)

/-! Quoted scalars. -/

/-- The character with the given number, unless it is half of a pair. -/
def charOf? (number : Nat) : Option Char :=
  if number.isValidChar then some (.ofNat number) else none

/-- The character written with the given number of hexadecimal digits, and how many
characters its escape takes. -/
def numberEscape? (digits : Nat) (text : List Char) : Option (Char × Nat) := do
  let found ← (hexNumber? (text.take digits)).bind charOf?
  if (text.take digits).length = digits then return (found, digits + 1) else none

/-- The character that is escaped by what stands behind a backslash, and how many
characters that is. -/
def escape? : List Char → Option (Char × Nat)
  | '0' :: _ => some (.ofNat 0, 1)
  | 'a' :: _ => some (.ofNat 7, 1)
  | 'b' :: _ => some (.ofNat 8, 1)
  | 't' :: _ => some ('\t', 1)
  | '\t' :: _ => some ('\t', 1)
  | 'n' :: _ => some ('\n', 1)
  | 'v' :: _ => some (.ofNat 11, 1)
  | 'f' :: _ => some (.ofNat 12, 1)
  | 'r' :: _ => some ('\r', 1)
  | 'e' :: _ => some (.ofNat 27, 1)
  | ' ' :: _ => some (' ', 1)
  | '"' :: _ => some ('"', 1)
  | '/' :: _ => some ('/', 1)
  | '\\' :: _ => some ('\\', 1)
  | 'N' :: _ => some (.ofNat 0x85, 1)
  | '_' :: _ => some (.ofNat 0xA0, 1)
  | 'L' :: _ => some (.ofNat 0x2028, 1)
  | 'P' :: _ => some (.ofNat 0x2029, 1)
  | 'x' :: text => numberEscape? 2 text
  | 'u' :: text => numberEscape? 4 text
  | 'U' :: text => numberEscape? 8 text
  | _ => none

/-- A reading with a text in front. -/
def inFront (text : List Char) (reading : Option (List Char × Cursor)) :
    Option (List Char × Cursor) :=
  reading.map fun (more, behind) => (text ++ more, behind)

/-- A scalar between single quotes, after the first of them.  Two quotes stand for
one. -/
def readSingle : Nat → Cursor → Option (List Char × Cursor)
  | 0, _ => none
  | bound + 1, cursor =>
    if cursor.atMark then none
    else match cursor.rest with
      | [] => none
      | '\x27' :: '\x27' :: _ => inFront ['\x27'] (readSingle bound (cursor.skip 2))
      | '\x27' :: _ => some ([], cursor.skip 1)
      | c :: _ =>
        if isSpace c || isBreak c then do
          let (gap, behind) ← readGap 0 false (bound + 1) cursor
          inFront gap.text (readSingle bound behind)
        else inFront [c] (readSingle bound (cursor.skip 1))

/-- A scalar between double quotes, after the first of them.  A backslash escapes a
character, or the end of a line, which then stands for nothing. -/
def readDouble : Nat → Cursor → Option (List Char × Cursor)
  | 0, _ => none
  | bound + 1, cursor =>
    if cursor.atMark then none
    else match cursor.rest with
      | [] => none
      | '"' :: _ => some ([], cursor.skip 1)
      | '\\' :: rest =>
        if rest.head?.any isBreak then do
          let (gap, behind) ← readGap 0 true (bound + 1) (cursor.skip 1).skipBreak
          inFront gap.breaks (readDouble bound behind)
        else do
          let (found, length) ← escape? rest
          inFront [found] (readDouble bound (cursor.skip (length + 1)))
      | c :: _ =>
        if isSpace c || isBreak c then do
          let (gap, behind) ← readGap 0 false (bound + 1) cursor
          inFront gap.text (readDouble bound behind)
        else inFront [c] (readDouble bound (cursor.skip 1))

/-! Plain scalars. -/

/-- The characters with which no plain scalar begins. -/
def isReserved (c : Char) : Bool :=
  isIndicator c || isSpace c || isBreak c || c == '-' || c == '?' || c == ':' || c == '#' ||
    c == '&' || c == '*' || c == '!' || c == '|' || c == '>' || c == '\x27' || c == '"' ||
    c == '%' || c == '@' || c.toNat == 96

/-- A plain scalar begins with `c`, where `rest` stands behind it. -/
def beginsPlain (inBraces : Bool) (c : Char) (rest : List Char) : Bool :=
  !isReserved c || (c == '-' && !rest.head?.any isSpace) ||
    (!inBraces && (c == '?' || c == ':') && !endsWord rest)

/-- The characters of a plain scalar up to a blank, the end of a line, a colon that
ends a key, or structure between braces.  Between braces no structure may follow
a colon at once. -/
def takeRun (inBraces : Bool) : List Char → Option (List Char)
  | [] => some []
  | c :: rest =>
    if isSpace c || isBreak c then some []
    else if inBraces && c == ':' && rest.head?.any (fun d => isIndicator d || d == '?') then none
    else if (c == ':' && endsWord rest) || (inBraces && isIndicator c) then some []
    else (takeRun inBraces rest).map (c :: ·)

/-- A plain scalar, the place behind it and the gap that follows, and whether that
gap goes over the end of a line.  Outside braces the scalar ends where a line
begins before the column `indent`. -/
def readPlain (inBraces : Bool) (indent : Nat) :
    Nat → Cursor → Option (List Char × Cursor × Bool)
  | 0, _ => none
  | bound + 1, cursor =>
    if cursor.atMark || cursor.sees (· == '#') then some ([], cursor, false)
    else do
      let run ← takeRun inBraces cursor.rest
      let behind := cursor.skip run.length
      if !behind.sees fun c => isSpace c || isBreak c then return (run, behind, false)
      let (gap, next) ← readGap indent false (bound + 1) behind
      if !inBraces && decide (next.column < indent) then return (run, next, gap.isBroken)
      let (more, last, broken) ← readPlain inBraces indent bound next
      if more.isEmpty then return (run, last, gap.isBroken)
      return (run ++ gap.text ++ more, last, broken)

/-! Block scalars. -/

/-- What becomes of the ends of lines at the end of a block scalar: none of them
stays, the first one does, or all. -/
inductive Chomping where
  | strip
  | clip
  | keep

/-- The sign of a way of chomping. -/
def Chomping.ofSign? : Char → Option Chomping
  | '-' => some .strip
  | '+' => some .keep
  | _ => none

/-- What the header of a block scalar says: how to chomp, and by how many columns
the scalar is indented, if it says so. -/
structure Header where
  chomping : Chomping
  increment : Option Nat
  length : Nat

/-- The header that begins a text: a sign and a digit in any order, each of which
may be missing.  The digit is not zero. -/
def Header.read? (text : List Char) : Option Header :=
  let digitOf (c : Char) : Option Nat := if c.isDigit then some (c.toNat - '0'.toNat) else none
  let second := text[1]?
  let header : Header := match text.head?.bind Chomping.ofSign?, text.head?.bind digitOf with
    | some chomping, _ =>
      match second.bind digitOf with
      | some digit => ⟨chomping, some digit, 2⟩
      | none => ⟨chomping, none, 1⟩
    | none, some digit =>
      match second.bind Chomping.ofSign? with
      | some chomping => ⟨chomping, some digit, 2⟩
      | none => ⟨.clip, some digit, 1⟩
    | none, none => ⟨.clip, none, 0⟩
  if header.increment = some 0 then none else some header

/-- The ends of empty lines, the place behind them and the indentation there, and
the widest column that was reached.  Only spaces may indent; those from the
column `indent` on, if that is known, belong to the text. -/
def readEmptyLines (indent : Option Nat) :
    Nat → Cursor → Option (List Char × Cursor × Nat)
  | 0, _ => none
  | bound + 1, cursor =>
    let spaces := (cursor.rest.takeWhile (· == ' ')).length
    let behind := cursor.skip (match indent with
      | some column => min spaces (column - cursor.column)
      | none => spaces)
    let outside := indent.all fun column => decide (behind.column < column)
    match behind.rest with
    | [] => some ([], behind, behind.column)
    | c :: _ =>
      if outside && c == '\t' then none
      else if isBreak c then
        (readEmptyLines indent bound behind.skipBreak).map fun (breaks, last, widest) =>
          (breakText c :: breaks, last, max widest behind.column)
      else some ([], behind, behind.column)

/-- What was read of a block scalar: its text, and the ends of lines behind it. -/
structure BlockText where
  text : List Char
  lastBreak : Option Char
  emptyLines : List Char

/-- The lines of a block scalar.  Before them stand the end of the line before, if
there is one, and the ends of empty lines; `indented` says that the line before
begins with a blank.  The end of a line is folded only between two lines that do
not. -/
def readLines (style : Style) (indent : Nat) :
    Nat → Option Char → List Char → Bool → Cursor → Option (BlockText × Cursor)
  | 0, _, _, _, _ => none
  | bound + 1, before, emptyLines, indented, cursor =>
    if cursor.column = indent ∧ !cursor.rest.isEmpty then do
      let blankFirst := cursor.sees isSpace
      let isFolded := style = .folded ∧ before = some '\n' ∧ !indented ∧ !blankFirst
      let joint :=
        if isFolded then (if emptyLines.isEmpty then [' '] else []) else before.toList
      let content := cursor.rest.takeWhile fun c => !isBreak c
      let behind := cursor.skip content.length
      let next := if behind.rest.isEmpty then behind else behind.skipBreak
      let (breaks, start, _) ← readEmptyLines (some indent) (bound + 1) next
      let (more, last) ←
        readLines style indent bound (behind.rest.head?.map breakText) breaks blankFirst start
      return ({ more with text := joint ++ emptyLines ++ content ++ more.text }, last)
    else some (⟨[], before, emptyLines⟩, cursor)

/-- A block scalar, after the sign of its style, where lines of the surrounding
collection are indented by less than `outer`. -/
def readBlock? (style : Style) (outer : Nat) (cursor : Cursor) :
    Option (List Char × Cursor) := do
  let header ← Header.read? cursor.rest
  let first ← (cursor.skip header.length).nextLine?
  let given := header.increment.map fun increment => outer - 1 + increment
  let (breaks, start, widest) ← readEmptyLines given (first.rest.length + 1) first
  let indent := given.getD (max widest (max outer 1))
  let (block, behind) ← readLines style indent (start.rest.length + 1) none breaks false start
  let tail := match header.chomping with
    | .strip => []
    | .clip => block.lastBreak.toList
    | .keep => block.lastBreak.toList ++ block.emptyLines
  return (block.text ++ tail, behind)

end Yaml
end DecisionTuples
