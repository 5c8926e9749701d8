/-!
# Comparisons

The six ways a condition compares a variable with a number.  `converse` is the
comparison that says the same with its two operands exchanged, so that
`0 > x` can be read as `x < 0`.
-/

namespace DecisionTuples

/-- A text that is not the symbol of any operator of the kind that is wanted. -/
inductive UnknownOperator where
  | comparison (text : String)
  | equality (text : String)
  deriving DecidableEq

/-- The wording of the error. -/
def UnknownOperator.message : UnknownOperator → String
  | comparison text => "Unknown binary operator: " ++ text
  | equality text => "Unknown equality operator: " ++ text

/-- A comparison between a variable and a number. -/
inductive Comparison where
  | atMost
  | atLeast
  | notEqual
  | less
  | greater
  | equal
  deriving DecidableEq

namespace Comparison

/-- Every comparison, in the order in which the language tries their symbols: a
symbol stands before each symbol that begins it. -/
def all : List Comparison := [atMost, atLeast, notEqual, less, greater, equal]

/-- The characters with which the language writes the comparison. -/
def spelling : Comparison → List Char
  | atMost => ['<', '=']
  | atLeast => ['>', '=']
  | notEqual => ['!', '=']
  | less => ['<']
  | greater => ['>']
  | equal => ['=']

/-- How the language writes the comparison. -/
def symbol (comparison : Comparison) : String := .ofList comparison.spelling

/-- The published name of the comparison. -/
def name : Comparison → String
  | atMost => "LessThanOrEqualTo"
  | atLeast => "GreaterThanOrEqualTo"
  | notEqual => "NotEqual"
  | less => "LessThan"
  | greater => "GreaterThan"
  | equal => "Equal"

/-- The comparison that holds of the exchanged operands. -/
def converse : Comparison → Comparison
  | atMost => atLeast
  | atLeast => atMost
  | less => greater
  | greater => less
  | notEqual => notEqual
  | equal => equal

/-- The comparison with the given symbol. -/
def ofSymbol? (text : String) : Option Comparison :=
  all.find? fun comparison => comparison.symbol == text

/-- The comparison with the given symbol, or the error that there is none. -/
def ofSymbol (text : String) : Except UnknownOperator Comparison :=
  match ofSymbol? text with
  | some comparison => .ok comparison
  | none => .error (.comparison text)

/-- The comparison with the given published name. -/
def ofName? (text : String) : Option Comparison :=
  all.find? fun comparison => comparison.name == text

@[simp] theorem converse_converse (comparison : Comparison) :
    comparison.converse.converse = comparison := by
  cases comparison <;> rfl

@[simp] theorem ofSymbol?_symbol (comparison : Comparison) :
    ofSymbol? comparison.symbol = some comparison := by
  cases comparison <;> decide

@[simp] theorem ofSymbol_symbol (comparison : Comparison) :
    ofSymbol comparison.symbol = .ok comparison := by
  rw [ofSymbol, ofSymbol?_symbol]

@[simp] theorem ofName?_name (comparison : Comparison) :
    ofName? comparison.name = some comparison := by
  cases comparison <;> decide

end Comparison

/-- The two ways a condition compares a variable with a truth value. -/
inductive Equality where
  | equal
  | notEqual
  deriving DecidableEq

namespace Equality

/-- Both comparisons, in the order in which the language tries their symbols. -/
def all : List Equality := [notEqual, equal]

/-- The characters with which the language writes the comparison. -/
def spelling : Equality → List Char
  | equal => ['=']
  | notEqual => ['!', '=']

/-- How the language writes the comparison. -/
def symbol (equality : Equality) : String := .ofList equality.spelling

/-- The published name of the comparison. -/
def name : Equality → String
  | equal => "Equal"
  | notEqual => "NotEqual"

/-- The comparison with the given symbol. -/
def ofSymbol? (text : String) : Option Equality :=
  all.find? fun equality => equality.symbol == text

/-- The comparison with the given symbol, or the error that there is none. -/
def ofSymbol (text : String) : Except UnknownOperator Equality :=
  match ofSymbol? text with
  | some equality => .ok equality
  | none => .error (.equality text)

/-- The comparison with the given published name. -/
def ofName? (text : String) : Option Equality :=
  all.find? fun equality => equality.name == text

/-- The truth value that the variable must have, when it is compared in this way
with `value`. -/
def resolve : Equality → Bool → Bool
  | equal, value => value
  | notEqual, value => !value

@[simp] theorem ofSymbol?_symbol (equality : Equality) :
    ofSymbol? equality.symbol = some equality := by
  cases equality <;> decide

@[simp] theorem ofSymbol_symbol (equality : Equality) :
    ofSymbol equality.symbol = .ok equality := by
  rw [ofSymbol, ofSymbol?_symbol]

@[simp] theorem ofName?_name (equality : Equality) :
    ofName? equality.name = some equality := by
  cases equality <;> decide

end Equality
end DecisionTuples
