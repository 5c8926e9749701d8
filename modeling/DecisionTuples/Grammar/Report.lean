import DecisionTuples.Grammar.Rule

/-!
# Reports about text that cannot be read

A report shows the line in which reading stopped, marks the place, and lists the
rules that were tried there.  Lines and columns count from one.  A line ends
with a line feed, alone or after a carriage return; a carriage return by itself
is a character like any other.  Columns count characters.
-/

namespace DecisionTuples

/-- A place in a text. -/
structure Position where
  line : Nat
  column : Nat
  deriving DecidableEq

namespace Position

/-- The place reached from a place by reading a text. -/
def advance (position : Position) : List Char → Position
  | [] => position
  | '\r' :: '\n' :: rest => advance ⟨position.line + 1, 1⟩ rest
  | '\n' :: rest => advance ⟨position.line + 1, 1⟩ rest
  | _ :: rest => advance ⟨position.line, position.column + 1⟩ rest

/-- The place behind a text that begins at the first line and column. -/
def after (text : List Char) : Position := advance ⟨1, 1⟩ text

/-- The displayed form. -/
def text (position : Position) : String :=
  toString position.line ++ ":" ++ toString position.column

end Position

/-- A text, a place in it, and the rules that were tried there in vain. -/
structure Report where
  source : List Char
  /-- How many characters stand before the place. -/
  offset : Nat
  expected : List Rule

namespace Report

/-- Line and column of the place. -/
def position (report : Report) : Position := .after (report.source.take report.offset)

/-- A text up to and with its first line feed. -/
def throughLineFeed : List Char → List Char
  | [] => []
  | '\n' :: _ => ['\n']
  | c :: rest => c :: throughLineFeed rest

/-- The shown line.  Where the place itself is a line end, line ends are shown as
symbols; otherwise they are left out. -/
def line (report : Report) : List Char :=
  let before := report.source.take report.offset
  let behind := report.source.drop report.offset
  let whole := (before.reverse.takeWhile (· != '\n')).reverse ++ throughLineFeed behind
  let atLineEnd := match behind with
    | c :: _ => c == '\r' || c == '\n'
    | [] => false
  if atLineEnd then
    whole.map fun c => if c == '\r' then '␍' else if c == '\n' then '␊' else c
  else whole.filter fun c => c != '\r' && c != '\n'

/-- What stands under the line: blanks up to the place, tabulators kept, and the
mark. -/
def marker (report : Report) : List Char :=
  (report.line.take (report.position.column - 1)).map (fun c => if c == '\t' then '\t' else ' ')
    ++ ['^', '-', '-', '-']

/-- The whole report. -/
def text (report : Report) : String :=
  let number := toString report.position.line
  let margin := String.ofList (List.replicate number.length ' ')
  "\n".intercalate
    [margin ++ "--> " ++ report.position.text,
      margin ++ " |",
      number ++ " | " ++ .ofList report.line,
      margin ++ " | " ++ .ofList report.marker,
      margin ++ " |",
      margin ++ " = expected " ++ Rule.enumerate ((Rule.sorted report.expected).map Rule.name)]

end Report
end DecisionTuples
