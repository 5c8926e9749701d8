import DecisionTuples.Grammar.Tree

/-!
# The grammar of features

The constructs of the language, each as the parser that reads it.  Alternatives
are tried in the order in which they stand here, so a longer operator comes
before the ones that begin it, and a number type with a precision before the
one without.

Decisions and features nest.  Their parsers take a bound on the depth of
nesting; as every level takes at least one character, a bound above the length
of the text is no restriction.
-/

namespace DecisionTuples
namespace Parser

/-- The type of a declaration. -/
def typeExpr : Parser TypeExpr :=
  orElse (rule .boolType do
    literal ['b', 'o', 'o', 'l']
    return .bool) <|
  orElse (rule .intType do
    literal ['i', 'n', 't']
    return .int) <|
  orElse (rule .preciseType do
    literal ['n', 'u', 'm']
    literal ['(']
    let digits ← precision
    literal [')']
    return .numWith digits)
  (rule .numType do
    literal ['n', 'u', 'm']
    return .num)

/-- The declaration of a variable. -/
def declaration : Parser Item := rule .declaration do
  varWord
  let name ← variableName
  literal [':']
  let type ← typeExpr
  return .declaration name type

/-- A truth value compared with a variable. -/
def truthFirst : Parser Condition := rule .truthFirst do
  let value ← truthValue
  let operator ← equality
  let name ← variableName
  return .truth name operator value

/-- A variable compared with a truth value. -/
def truthLast : Parser Condition := rule .truthLast do
  let name ← variableName
  let operator ← equality
  let value ← truthValue
  return .truth name operator value

/-- A number compared with a variable. -/
def numberFirst : Parser Condition := rule .numberFirst do
  let constant ← number
  let operator ← comparison
  let name ← variableName
  return .comparison name .left constant operator

/-- A variable compared with a number. -/
def numberLast : Parser Condition := rule .numberLast do
  let name ← variableName
  let operator ← comparison
  let constant ← number
  return .comparison name .right constant operator

/-- The bracket before an interval: whether the lower end is left out. -/
def lowerBracket : Parser Bool :=
  rule .lowerBracket <| lexeme <| readSymbol? [(['('], true), (['['], false)]

/-- The bracket behind an interval: whether the upper end is left out. -/
def upperBracket : Parser Bool :=
  rule .upperBracket <| lexeme <| readSymbol? [([')'], true), ([']'], false)]

/-- An interval between brackets. -/
def interval : Parser (Interval × Openness) := rule .interval do
  let loOpen ← lowerBracket
  let lo ← number
  literal [',']
  let hi ← number
  let hiOpen ← upperBracket
  return (⟨lo, hi⟩, ⟨loOpen, hiOpen⟩)

/-- A variable said to lie in an interval. -/
def membership : Parser Condition := rule .membership do
  let name ← variableName
  inWord
  let (bounds, openness) ← interval
  return .membership name bounds openness

/-- One condition. -/
def condition : Parser Condition :=
  orElse truthFirst <| orElse truthLast <| orElse numberFirst <| orElse numberLast membership

/-- Conditions that hold together. -/
def conditions : Parser (List Condition) := rule .conditions do
  let first ← condition
  let others ← many do
    literal ['&', '&']
    condition
  return first :: others

/-- Conditions between parentheses. -/
def guard : Parser (List Condition) := do
  literal ['(']
  let found ← conditions
  literal [')']
  return found

/-- Decisions between braces, where `inner` reads one of them. -/
def block (inner : Parser Decision) : Parser (List Decision) := do
  literal ['\x7b']
  let found ← many inner
  literal ['\x7d']
  return found

/-- The body of a decision. -/
def body (inner : Parser Decision) : Parser (List Decision) := rule .body (block inner)

/-- An alternative with conditions of its own. -/
def alternative (inner : Parser Decision) : Parser ElseIf := rule .alternative do
  elseWord
  ifWord
  let found ← guard
  let below ← optional (body inner)
  return ⟨found, below⟩

/-- The closing alternative. -/
def closing (inner : Parser Decision) : Parser (List Decision) := rule .closing do
  elseWord
  block inner

/-- A decision nested at most `depth` deep. -/
def decision : Nat → Parser Decision
  | 0 => fail
  | depth + 1 => rule .decision do
    ifWord
    let found ← guard
    let below ← optional (body (decision depth))
    let elseIfs ← many (alternative (decision depth))
    let otherwise ← optional (closing (decision depth))
    return ⟨found, below, elseIfs, otherwise⟩

/-- One statement of a feature whose decisions and features nest at most `depth`
deep, where `inner` reads a nested feature. -/
def item (depth : Nat) (inner : Parser (List Item)) : Parser Item :=
  orElse declaration <|
  orElse (do
    let found ← decision depth
    return .decision found)
  (do
    let items ← inner
    return .nested items)

/-- The statements of a feature nested at most `depth` deep. -/
def feature : Nat → Parser (List Item)
  | 0 => fail
  | depth + 1 => rule .feature do
    literal ['[']
    let items ← many1 (item depth (feature depth))
    literal [']']
    return items

/-- A whole text: one feature, with gaps around it. -/
def file (depth : Nat) : Parser (List Item) := rule .file do
  gap
  let items ← feature depth
  endOfInput
  return items

end Parser
end DecisionTuples
