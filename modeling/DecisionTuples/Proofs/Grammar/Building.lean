import DecisionTuples.Grammar.Parse
import DecisionTuples.Proofs.Grammar.SyntaxTree

/-!
# Features from syntax trees

The statements of a source can also be read off its syntax tree, without knowing the grammar:
each builder goes through the nodes within a node, picks out those it has a use for by their
rules, and keeps the last of each kind.  What it then misses, and what a token does not
denote, are errors of their own.

A syntax tree never leads to most of these errors.  That depends on the grammar, so it is no
part of the builders; they are defined for every tree.  Reading a source gives the same as
building its tree (`Feature.exists_tree_of_parse`).
-/

namespace DecisionTuples

/-! ## Errors -/

/-- Why no feature can be built from a tree. -/
inductive BuildError where
  /-- A node that is needed is not there. -/
  | missing (field : String)
  /-- A node is there and has no use. -/
  | invalid (field message : String)

namespace BuildError

/-- The published name of the reason. -/
def label : BuildError → String
  | missing _ => "MissingField"
  | invalid _ _ => "InvalidValue"

/-- The wording of the error. -/
def message : BuildError → String
  | missing field => "Missing required node: " ++ field
  | invalid field message => "Invalid value for field '" ++ field ++ "': " ++ message

/-- The error about a precision that is not greater than zero. -/
def refused (spelling : String) : BuildError :=
  invalid "precision" ("'" ++ spelling ++ "' must be greater than zero")

/-- What was found under the name of a field, or the error that it is missing. -/
def require {α : Type} (field : String) : Option α → Except BuildError α
  | some a => .ok a
  | none => .error (missing field)

end BuildError

open BuildError (require)

/-! ## Numbers as texts -/

namespace Number

/-- A sign at the front: whether it is a minus sign, and what is behind it. -/
def splitSign : List Char → Bool × List Char
  | '-' :: text => (true, text)
  | '+' :: text => (false, text)
  | text => (false, text)

/-- The power of ten that is written behind the digits. -/
def exponent? : List Char → Option Int
  | [] => some 0
  | c :: text =>
    let (negative, digits) := splitSign text
    if c.toLower = 'e' ∧ digits ≠ [] ∧ digits.all Char.isDigit then
      let places : Int := Nat.ofDigitChars 10 digits 0
      some (if negative then -places else places)
    else none

/-- The digits behind a point at the front, and what is behind them. -/
def splitFraction : List Char → List Char × List Char
  | '.' :: text => (text.takeWhile Char.isDigit, text.dropWhile Char.isDigit)
  | text => ([], text)

/-- The number of the given sign with the given digits: some before or behind a point, and
a power of ten. -/
def ofDigits? (negative : Bool) (text : List Char) : Option Number :=
  let whole := text.takeWhile Char.isDigit
  let (fraction, behind) := splitFraction (text.dropWhile Char.isDigit)
  if whole ++ fraction = [] then none
  else (exponent? behind).map fun places =>
    ((Decimal.ofDigits whole fraction).shift places).toNumber negative

/-- The number that a text denotes: digits or a word in any case, with a sign or without
one. -/
def ofText? (text : List Char) : Option Number :=
  let (negative, magnitude) := splitSign text
  let word := String.ofList (magnitude.map Char.toLower)
  if word = "inf" ∨ word = "infinity" then
    some (if negative then negativeInfinity else infinity)
  else if word = "nan" then some nan
  else ofDigits? negative magnitude

end Number

namespace Node

/-! ## Tokens -/

/-- The number that the letters of the node denote. -/
def readNumber (field : String) (node : Node) : Except BuildError Number :=
  match Number.ofText? node.letters with
  | some number => .ok number
  | none =>
    let reason :=
      if node.letters = [] then "cannot parse float from empty string" else "invalid float literal"
    .error (.invalid field ("'" ++ node.text ++ "': " ++ reason))

/-- The number of a constant or a bound.  A gap may stand between a sign and the word for
infinity. -/
def buildNumber (node : Node) : Except BuildError Number :=
  if infinityWord <:+ node.letters then
    .ok (if ['-'] <+: node.letters then .negativeInfinity else .infinity)
  else node.readNumber "number"

/-- The declared precision, which must be greater than zero. -/
def buildPrecision (node : Node) : Except BuildError Number := do
  let precision ← node.readNumber "precision"
  if Number.zero < precision then return precision else throw (.refused node.text)

def buildTruth (node : Node) : Bool := node.text == "true"

def buildEquality (node : Node) : Except BuildError Equality :=
  (Equality.ofSymbol node.text).mapError fun error => .invalid "eq_op" error.message

def buildComparison (node : Node) : Except BuildError Comparison :=
  (Comparison.ofSymbol node.text).mapError fun error => .invalid "binary_op" error.message

/-! ## Intervals -/

/-- What was found of an interval. -/
structure IntervalParts where
  loOpen : Option Bool := none
  hiOpen : Option Bool := none
  bounds : List Number := []

/-- Take note of one more node within an interval. -/
def IntervalParts.add (parts : IntervalParts) (node : Node) : Except BuildError IntervalParts :=
  match node.rule with
  | .lowerBracket => .ok { parts with loOpen := some (node.text == "(") }
  | .upperBracket => .ok { parts with hiOpen := some (node.text == ")") }
  | .number => do
    let bound ← node.buildNumber
    return { parts with bounds := parts.bounds ++ [bound] }
  | _ => .ok parts

/-- The interval of a node, and which of its ends are left out. -/
def buildInterval (node : Node) : Except BuildError (Interval × Openness) := do
  let parts ← node.inner.foldlM IntervalParts.add {}
  match parts.bounds with
  | [lo, hi] => do
    let loOpen ← require "lower_bracket" parts.loOpen
    let hiOpen ← require "upper_bracket" parts.hiOpen
    return (⟨lo, hi⟩, ⟨loOpen, hiOpen⟩)
  | _ => throw (.missing "interval bound")

/-! ## Conditions -/

/-- What was found of a condition. -/
structure ConditionParts where
  name : Option String := none
  truth : Option Bool := none
  equality : Option Equality := none
  comparison : Option Comparison := none
  constant : Option Number := none
  interval : Option (Interval × Openness) := none

/-- Take note of one more node within a condition. -/
def ConditionParts.add (parts : ConditionParts) (node : Node) :
    Except BuildError ConditionParts :=
  match node.rule with
  | .variableName => .ok { parts with name := some node.text }
  | .truthValue => .ok { parts with truth := some node.buildTruth }
  | .equality => do
    let equality ← node.buildEquality
    return { parts with equality := some equality }
  | .comparison => do
    let comparison ← node.buildComparison
    return { parts with comparison := some comparison }
  | .number => do
    let constant ← node.buildNumber
    return { parts with constant := some constant }
  | .interval => do
    let interval ← node.buildInterval
    return { parts with interval := some interval }
  | _ => .ok parts

/-- The condition of a node, whose rule says how it was written. -/
def buildCondition (node : Node) : Except BuildError Condition := do
  let parts ← node.inner.foldlM ConditionParts.add {}
  let name ← require "var_name" parts.name
  match node.rule with
  | .truthFirst | .truthLast => do
    let equality ← require "eq_op" parts.equality
    let value ← require "bool_lit" parts.truth
    return .truth name equality value
  | .numberFirst => do
    let constant ← require "number" parts.constant
    let comparison ← require "binary_op" parts.comparison
    return .comparison name .left constant comparison
  | .numberLast => do
    let comparison ← require "binary_op" parts.comparison
    let constant ← require "number" parts.constant
    return .comparison name .right constant comparison
  | .membership => do
    let (bounds, openness) ← require "interval_lit" parts.interval
    return .membership name bounds openness
  | other => throw (.invalid "condition" ("unexpected node " ++ other.name))

/-- The conditions of a node, of which there must be one. -/
def buildConditions (node : Node) : Except BuildError (List Condition) := do
  let found ← node.inner.mapM buildCondition
  if found.isEmpty then throw (.missing "condition") else return found

/-! ## Declarations -/

/-- What was found of a declaration. -/
structure DeclarationParts where
  name : Option String := none
  type : Option ValueType := none

/-- Take note of one more node within a declaration. -/
def DeclarationParts.add (parts : DeclarationParts) (node : Node) :
    Except BuildError DeclarationParts :=
  match node.rule with
  | .variableName => .ok { parts with name := some node.text }
  | .boolType => .ok { parts with type := some .bool }
  | .intType => .ok { parts with type := some .int }
  | .numType => .ok { parts with type := some .num }
  | .preciseType => do
    let literal ← require "precision" node.inner.head?
    let precision ← literal.buildPrecision
    return { parts with type := some (.number precision) }
  | _ => .ok parts

/-- The variable that a node declares. -/
def buildVariable (node : Node) : Except BuildError Variable := do
  let parts ← node.inner.foldlM DeclarationParts.add {}
  let name ← require "var_name" parts.name
  let type ← require "var_type" parts.type
  return ⟨name, type⟩

/-! ## Decisions -/

/-- What was found of a decision. -/
structure DecisionParts where
  conditions : Option (List Condition) := none
  body : Option (List Decision) := none
  elseIfs : List ElseIf := []
  otherwise : Option (List Decision) := none

/-- What was found of an alternative. -/
structure ElseIfParts where
  conditions : Option (List Condition) := none
  body : Option (List Decision) := none

mutual

/-- The decision of a node. -/
def buildDecision : Node → Except BuildError Decision
  | ⟨_, _, inner⟩ => do
    let parts ← addToDecision {} inner
    let conditions ← require "conditions" parts.conditions
    return ⟨conditions, parts.body, parts.elseIfs, parts.otherwise⟩

/-- Take note of the nodes within a decision. -/
def addToDecision (parts : DecisionParts) : List Node → Except BuildError DecisionParts
  | [] => .ok parts
  | node :: rest =>
    match node.rule with
    | .conditions => do
      let found ← node.buildConditions
      addToDecision { parts with conditions := some found } rest
    | .body => do
      let found ← node.buildBody
      addToDecision { parts with body := some found } rest
    | .alternative => do
      let found ← node.buildElseIf
      addToDecision { parts with elseIfs := parts.elseIfs ++ [found] } rest
    | .closing => do
      let found ← node.buildBody
      addToDecision { parts with otherwise := some found } rest
    | _ => addToDecision parts rest

/-- The decisions within a node. -/
def buildBody : Node → Except BuildError (List Decision)
  | ⟨_, _, inner⟩ => buildDecisions inner

/-- The decisions among the given nodes. -/
def buildDecisions : List Node → Except BuildError (List Decision)
  | [] => .ok []
  | node :: rest =>
    if node.rule = .decision then do
      let first ← node.buildDecision
      let others ← buildDecisions rest
      return first :: others
    else buildDecisions rest

/-- The alternative of a node. -/
def buildElseIf : Node → Except BuildError ElseIf
  | ⟨_, _, inner⟩ => do
    let parts ← addToElseIf {} inner
    let conditions ← require "conditions" parts.conditions
    return ⟨conditions, parts.body⟩

/-- Take note of the nodes within an alternative. -/
def addToElseIf (parts : ElseIfParts) : List Node → Except BuildError ElseIfParts
  | [] => .ok parts
  | node :: rest =>
    match node.rule with
    | .conditions => do
      let found ← node.buildConditions
      addToElseIf { parts with conditions := some found } rest
    | .body => do
      let found ← node.buildBody
      addToElseIf { parts with body := some found } rest
    | _ => addToElseIf parts rest

end

/-! ## Features -/

mutual

/-- The feature of a node. -/
def buildFeature : Node → Except BuildError Feature
  | ⟨_, _, inner⟩ => addToFeature .empty inner

/-- Add the statements among the given nodes to a feature. -/
def addToFeature (feature : Feature) : List Node → Except BuildError Feature
  | [] => .ok feature
  | node :: rest =>
    match node.rule with
    | .declaration => do
      let declared ← node.buildVariable
      addToFeature (feature.addVariable declared) rest
    | .decision => do
      let decision ← node.buildDecision
      addToFeature (feature.addDecision decision) rest
    | .feature => do
      let nested ← node.buildFeature
      addToFeature (feature.addFeature nested) rest
    | _ => addToFeature feature rest

end

/-- The feature of a whole source, given by its nodes. -/
def buildSource (nodes : List Node) : Except BuildError Feature := do
  let file ← require "file" nodes.head?
  let feature ← require "feature" (file.inner.find? fun node => node.rule = .feature)
  feature.buildFeature

end Node
end DecisionTuples
