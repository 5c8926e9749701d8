import DecisionTuples.Grammar.Parser
import DecisionTuples.Comparison
import DecisionTuples.Number.Decimal

/-!
# Tokens and gaps

Between two tokens there may be a *gap*: blanks, line ends and comments.  A
comment is either between `/*` and the next `*/`, or runs from `//` to the end of
the line.  A `/*` that is never closed begins no comment.

Each token is read together with the gap behind it, so that the next token
begins where the text goes on.  Words of the language end where a name could
not go on; names and numerals are taken at their longest.
-/

namespace DecisionTuples

/-- Blanks and line ends. -/
def isBlank (c : Char) : Bool := c == ' ' || c == '\t' || c == '\r' || c == '\n'

/-- The characters of which names consist. -/
def isWordChar (c : Char) : Bool := c.isAlphanum || c == '_'

/-- The characters with which names begin. -/
def isWordStart (c : Char) : Bool := c.isAlpha || c == '_'

mutual

/-- What is left of a text after the gap at its front. -/
def skipGap : List Char → List Char
  | [] => []
  | '/' :: '/' :: rest => skipLine rest
  | '/' :: '*' :: rest => (skipBlock? rest).getD ('/' :: '*' :: rest)
  | c :: rest => if isBlank c then skipGap rest else c :: rest

/-- What is left after the end of the line and the gap behind it. -/
def skipLine : List Char → List Char
  | [] => []
  | '\n' :: rest => skipGap rest
  | _ :: rest => skipLine rest

/-- What is left after the end of a comment and the gap behind it, if the comment
ends at all. -/
def skipBlock? : List Char → Option (List Char)
  | [] => none
  | '*' :: '/' :: rest => some (skipGap rest)
  | _ :: rest => skipBlock? rest

end

/-- What is left of a text after the given characters at its front. -/
def strip? : List Char → List Char → Option (List Char)
  | [], text => some text
  | _ :: _, [] => none
  | c :: word, d :: text => if c = d then strip? word text else none

/-- What is left after the given word, which must end there. -/
def stripWord? (word text : List Char) : Option (List Char) :=
  match strip? word text with
  | some (c :: rest) => if isWordChar c then none else some (c :: rest)
  | result => result

/-- The digits of a decimal numeral before and after the point. -/
structure Numeral where
  whole : List Char
  fraction : List Char
  deriving DecidableEq

namespace Numeral

/-- The numeral as it was written. -/
def spelling (numeral : Numeral) : String :=
  .ofList <| match numeral.fraction with
    | [] => numeral.whole
    | digits => numeral.whole ++ '.' :: digits

/-- The number of the given sign that the numeral denotes. -/
def value (numeral : Numeral) (negative : Bool) : Number :=
  (Decimal.ofDigits numeral.whole numeral.fraction).toNumber negative

/-- Read a numeral: digits, and after a point more digits if there are any. -/
def read? (text : List Char) : Option (Numeral × List Char) :=
  match text.takeWhile Char.isDigit, text.dropWhile Char.isDigit with
  | [], _ => none
  | whole, '.' :: rest =>
    match rest.takeWhile Char.isDigit with
    | [] => some (⟨whole, []⟩, '.' :: rest)
    | fraction => some (⟨whole, fraction⟩, rest.dropWhile Char.isDigit)
  | whole, rest => some (⟨whole, []⟩, rest)

end Numeral

/-- Read a name at its longest. -/
def readName? : List Char → Option (String × List Char)
  | [] => none
  | c :: rest =>
    if isWordStart c then
      some (.ofList (c :: rest.takeWhile isWordChar), rest.dropWhile isWordChar)
    else none

/-- The word for infinity. -/
def infinityWord : List Char := ['I', 'n', 'f']

/-- Read a number.  A gap may stand between the sign and the word for infinity,
but not between the sign and a numeral. -/
def readNumber? : List Char → Option (Number × List Char)
  | '-' :: text =>
    match stripWord? infinityWord (skipGap text) with
    | some rest => some (.negativeInfinity, rest)
    | none => (Numeral.read? text).map fun (numeral, rest) => (numeral.value true, rest)
  | text =>
    match stripWord? infinityWord text with
    | some rest => some (.infinity, rest)
    | none => (Numeral.read? text).map fun (numeral, rest) => (numeral.value false, rest)

/-- Read the first of several symbols that stands at the front of the text. -/
def readSymbol? {α : Type} (symbols : List (List Char × α)) (text : List Char) :
    Option (α × List Char) :=
  symbols.findSome? fun (symbol, value) => (strip? symbol text).map fun rest => (value, rest)

namespace Parser

/-- A token with the gap behind it. -/
def lexeme {α : Type} (read : List Char → Option (α × List Char)) : Parser α :=
  token fun text => (read text).map fun (a, rest) => (a, skipGap rest)

/-- The given characters, whatever follows them. -/
def literal (symbol : List Char) : Parser Unit :=
  lexeme fun text => (strip? symbol text).map fun rest => ((), rest)

/-- A word of the language. -/
def word (letters : List Char) : Parser Unit :=
  lexeme fun text => (stripWord? letters text).map fun rest => ((), rest)

/-- The gap at the front of a text. -/
def gap : Parser Unit := token fun text => some ((), skipGap text)

def varWord : Parser Unit := rule .varWord (word ['v', 'a', 'r'])

def ifWord : Parser Unit := rule .ifWord (word ['i', 'f'])

def elseWord : Parser Unit := rule .elseWord (word ['e', 'l', 's', 'e'])

/-- The word that says that a variable lies in an interval. -/
def inWord : Parser Unit := rule .inWord (word ['i', 'n'])

/-- A truth value. -/
def truthValue : Parser Bool :=
  rule .truthValue <| lexeme fun text =>
    match stripWord? ['t', 'r', 'u', 'e'] text with
    | some rest => some (true, rest)
    | none => (stripWord? ['f', 'a', 'l', 's', 'e'] text).map fun rest => (false, rest)

/-- A comparison with a truth value. -/
def equality : Parser Equality :=
  rule .equality <| lexeme <| readSymbol? (Equality.all.map fun each => (each.spelling, each))

/-- A comparison with a number. -/
def comparison : Parser Comparison :=
  rule .comparison <| lexeme <| readSymbol? (Comparison.all.map fun each => (each.spelling, each))

def variableName : Parser String := rule .variableName (lexeme readName?)

/-- A numeral without a sign. -/
def precision : Parser Numeral := rule .precision (lexeme Numeral.read?)

def number : Parser Number := rule .number (lexeme readNumber?)

/-- The end of the text. -/
def endOfInput : Parser Unit :=
  rule .endOfInput <| token fun text => if text.isEmpty then some ((), text) else none

end Parser
end DecisionTuples
