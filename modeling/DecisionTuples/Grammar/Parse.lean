import DecisionTuples.Grammar.Feature
import DecisionTuples.Grammar.Report

/-!
# Reading a feature from text

A text is read as a whole or not at all.  There are two reasons why it is
refused: it does not follow the grammar, which is reported with the furthest
place that was reached, or a declared precision is not greater than zero.  The
first reason comes before the second.
-/

namespace DecisionTuples

/-- Why a text is refused. -/
inductive ParseError where
  /-- The text does not follow the grammar. -/
  | unreadable (report : Report)
  /-- A declared precision is not greater than zero. -/
  | precision (literal : Numeral)

namespace ParseError

/-- The published name of the reason. -/
def label : ParseError → String
  | unreadable _ => "Syntax"
  | precision _ => "InvalidValue"

/-- Line and column, where the text itself is at fault. -/
def position? : ParseError → Option Position
  | unreadable report => some report.position
  | precision _ => none

/-- The wording of the error. -/
def message : ParseError → String
  | unreadable report => "Syntax error at " ++ report.position.text ++ "\n" ++ report.text
  | precision literal =>
    "Invalid value for field 'precision': '" ++ literal.spelling ++ "' must be greater than zero"

end ParseError

/-- The parser for a whole text of the given length. -/
def Parser.source (length : Nat) : Parser (List Item) := file (length + 1)

/-- The report about a text that does not follow the grammar. -/
def Report.of (source : List Char) : Report :=
  let furthest := (Parser.source source.length).track source (.start source.length)
  ⟨source, source.length - furthest.remaining, furthest.rules⟩

/-- The feature that a text describes. -/
def Feature.parse (source : List Char) : Except ParseError Feature :=
  match (Parser.source source.length).run source with
  | none => .error (.unreadable (.of source))
  | some (items, _) => (Feature.ofItems items).mapError .precision

end DecisionTuples
