/-!
# The rules of the language

Each construct of the language is read by a rule with a name.  The names appear
in reports about text that cannot be read, where they are listed in the order
in which the language introduces its rules.
-/

namespace DecisionTuples

/-- A rule that a report can name. -/
inductive Rule where
  | endOfInput
  | file
  | feature
  | declaration
  | boolType
  | intType
  | preciseType
  | numType
  | decision
  | body
  | alternative
  | closing
  | conditions
  | truthFirst
  | truthLast
  | numberFirst
  | numberLast
  | membership
  | interval
  | lowerBracket
  | upperBracket
  | varWord
  | ifWord
  | elseWord
  | truthValue
  | equality
  | comparison
  | inWord
  | variableName
  | precision
  | number
  deriving DecidableEq

namespace Rule

/-- Every rule, in the order of introduction. -/
def all : List Rule :=
  [endOfInput, file, feature, declaration, boolType, intType, preciseType, numType, decision, body,
    alternative, closing, conditions, truthFirst, truthLast, numberFirst, numberLast, membership,
    interval, lowerBracket, upperBracket, varWord, ifWord, elseWord, truthValue, equality,
    comparison, inWord, variableName, precision, number]

/-- The name under which reports list the rule. -/
def name : Rule → String
  | endOfInput => "EOI"
  | file => "file"
  | feature => "feature"
  | declaration => "var_decl"
  | boolType => "bool_type"
  | intType => "int_type"
  | preciseType => "num_with_prec"
  | numType => "num_type"
  | decision => "if_stmt"
  | body => "if_body"
  | alternative => "else_if"
  | closing => "else_clause"
  | conditions => "conditions"
  | truthFirst => "bool_lhs"
  | truthLast => "bool_rhs"
  | numberFirst => "binary_lhs"
  | numberLast => "binary_rhs"
  | membership => "interval_cond"
  | interval => "interval_lit"
  | lowerBracket => "lower_bracket"
  | upperBracket => "upper_bracket"
  | varWord => "kw_var"
  | ifWord => "kw_if"
  | elseWord => "kw_else"
  | truthValue => "bool_lit"
  | equality => "eq_op"
  | comparison => "binary_op"
  | inWord => "interval_op"
  | variableName => "var_name"
  | precision => "pos_number"
  | number => "number"

/-- The rules of a list in the order of introduction, each once. -/
def sorted (rules : List Rule) : List Rule := all.filter fun rule => decide (rule ∈ rules)

/-- Alternatives as a sentence part: `a`, `a or b`, `a, b, or c`. -/
def enumerate : List String → String
  | [] => ""
  | [a] => a
  | [a, b] => a ++ " or " ++ b
  | names => ", ".intercalate names.dropLast ++ ", or " ++ names.getLast?.getD ""

end Rule
end DecisionTuples
