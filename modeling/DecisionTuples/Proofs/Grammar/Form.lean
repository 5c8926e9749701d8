import DecisionTuples.Grammar.Rule
import DecisionTuples.Proofs.Grammar.Gap

/-!
# The grammar as it is written

The rules of the language, as a context-free grammar over characters.  `Rule.form` is
the right-hand side of each rule.  `Derives form text rest` says that what stands
before `rest` in `text` is a word of the form:

* alternatives have no order, a repetition may stop after any word, and an optional
  part may be left out wherever it stands;
* a fixed word, such as `if`, ends where no name could go on;
* names, numerals and operators are taken at their longest;
* between two parts of a sequence, and between two words of a repetition, there may
  be any gap.

A derivation of a whole text leaves nothing behind.  A comment from `//` always runs
to the end of its line, so it cannot be cut short to make room for a token.
-/

namespace DecisionTuples

/-! ## Forms -/

/-- The right-hand side of a rule. -/
inductive Form where
  /-- No characters. -/
  | nothing
  /-- The end of the text. -/
  | finish
  /-- These characters, whatever follows them. -/
  | symbol (letters : List Char)
  /-- These characters, if no name could go on behind them. -/
  | word (letters : List Char)
  /-- The longest spelling of the language. -/
  | longest (language : List Char → Prop)
  /-- What the rule of this name stands for. -/
  | rule (name : Rule)
  /-- One form and then the other. -/
  | sequence (first second : Form)
  /-- One of two forms. -/
  | choice (first second : Form)
  /-- Any number of words of a form. -/
  | repeated (form : Form)
  /-- A word of a form, or nothing. -/
  | optionally (form : Form)

namespace Form

/-- The given forms, one after the other. -/
def inOrder : List Form → Form
  | [] => nothing
  | [form] => form
  | form :: rest => sequence form (inOrder rest)

/-- One of the given forms. -/
def oneOf : List Form → Form
  | [] => longest fun _ => False
  | [form] => form
  | form :: rest => choice form (oneOf rest)

/-- One word of a form or more. -/
def repeated1 (form : Form) : Form := sequence form (repeated form)

end Form

/-! ## Languages of tokens -/

/-- Names: a letter or an underscore, and then letters, digits and underscores. -/
def IsName (spelling : List Char) : Prop :=
  ∃ c rest, spelling = c :: rest ∧ isWordStart c = true ∧ ∀ d ∈ rest, isWordChar d = true

/-- One digit or more. -/
def IsDigits (spelling : List Char) : Prop :=
  spelling ≠ [] ∧ ∀ c ∈ spelling, c.isDigit = true

/-- Digits, and then a point with digits or nothing. -/
def IsNumeral (spelling : List Char) : Prop :=
  IsDigits spelling ∨
    ∃ whole fraction, spelling = whole ++ '.' :: fraction ∧ IsDigits whole ∧ IsDigits fraction

/-- A numeral, perhaps with a minus sign directly before it. -/
def IsSigned (spelling : List Char) : Prop :=
  IsNumeral spelling ∨ ∃ numeral, spelling = '-' :: numeral ∧ IsNumeral numeral

/-- The signs that compare with a truth value. -/
def IsEquality (spelling : List Char) : Prop := spelling ∈ [['!', '='], ['=']]

/-- The signs that compare with a number. -/
def IsComparison (spelling : List Char) : Prop :=
  spelling ∈ [['<', '='], ['>', '='], ['!', '='], ['<'], ['>'], ['=']]

/-! ## Rules -/

namespace Form

/-- Conditions between parentheses. -/
def guard : Form := inOrder [symbol ['('], rule .conditions, symbol [')']]

/-- Decisions between braces. -/
def block : Form := inOrder [symbol ['\x7b'], repeated (rule .decision), symbol ['\x7d']]

/-- One condition. -/
def condition : Form :=
  oneOf [rule .truthFirst, rule .truthLast, rule .numberFirst, rule .numberLast, rule .membership]

/-- One statement of a feature. -/
def item : Form := oneOf [rule .declaration, rule .decision, rule .feature]

end Form

open Form in
/-- What each rule stands for. -/
def Rule.form : Rule → Form
  | .endOfInput => finish
  | .file => inOrder [nothing, rule .feature, rule .endOfInput]
  | .feature => inOrder [symbol ['['], repeated1 item, symbol [']']]
  | .declaration => inOrder [rule .varWord, rule .variableName, symbol [':'],
      oneOf [rule .boolType, rule .intType, rule .preciseType, rule .numType]]
  | .boolType => symbol ['b', 'o', 'o', 'l']
  | .intType => symbol ['i', 'n', 't']
  | .preciseType => inOrder [symbol ['n', 'u', 'm'], symbol ['('], rule .precision, symbol [')']]
  | .numType => symbol ['n', 'u', 'm']
  | .decision => inOrder [rule .ifWord, guard, optionally (rule .body),
      repeated (rule .alternative), optionally (rule .closing)]
  | .body => block
  | .alternative => inOrder [rule .elseWord, rule .ifWord, guard, optionally (rule .body)]
  | .closing => inOrder [rule .elseWord, block]
  | .conditions => inOrder [condition, repeated (inOrder [symbol ['&', '&'], condition])]
  | .truthFirst => inOrder [rule .truthValue, rule .equality, rule .variableName]
  | .truthLast => inOrder [rule .variableName, rule .equality, rule .truthValue]
  | .numberFirst => inOrder [rule .number, rule .comparison, rule .variableName]
  | .numberLast => inOrder [rule .variableName, rule .comparison, rule .number]
  | .membership => inOrder [rule .variableName, rule .inWord, rule .interval]
  | .interval => inOrder [rule .lowerBracket, rule .number, symbol [','], rule .number,
      rule .upperBracket]
  | .lowerBracket => oneOf [symbol ['('], symbol ['[']]
  | .upperBracket => oneOf [symbol [')'], symbol [']']]
  | .varWord => word ['v', 'a', 'r']
  | .ifWord => word ['i', 'f']
  | .elseWord => word ['e', 'l', 's', 'e']
  | .truthValue => oneOf [word ['t', 'r', 'u', 'e'], word ['f', 'a', 'l', 's', 'e']]
  | .equality => longest IsEquality
  | .comparison => longest IsComparison
  | .inWord => word ['i', 'n']
  | .variableName => longest IsName
  | .precision => longest IsNumeral
  | .number => oneOf [inOrder [symbol ['-'], word ['I', 'n', 'f']], word ['I', 'n', 'f'],
      longest IsSigned]

/-! ## Derivations -/

/-- No name goes on at the front of the text. -/
def AtWordEnd (text : List Char) : Prop := ∀ c ∈ text.head?, isWordChar c = false

instance : ∀ text, Decidable (AtWordEnd text)
  | [] => isTrue fun _ h => absurd h (Option.not_mem_none _)
  | c :: _ => decidable_of_iff (isWordChar c = false)
      ⟨fun h _ hd => Option.some.inj hd ▸ h, fun h => h c rfl⟩

/-- What stands before the second text is a spelling of the language, and the first text
begins with no longer one. -/
def Longest (language : List Char → Prop) (text rest : List Char) : Prop :=
  ∃ spelling, language spelling ∧ text = spelling ++ rest ∧
    ∀ other, language other → other <+: text → other.length ≤ spelling.length

/-- What stands before the second text is a word of the form. -/
inductive Derives : Form → List Char → List Char → Prop
  | nothing (text : List Char) : Derives .nothing text text
  | finish : Derives .finish [] []
  | symbol (letters rest : List Char) : Derives (.symbol letters) (letters ++ rest) rest
  | word (letters : List Char) {rest : List Char} (hend : AtWordEnd rest) :
      Derives (.word letters) (letters ++ rest) rest
  | longest {language : List Char → Prop} {text rest : List Char}
      (h : Longest language text rest) : Derives (.longest language) text rest
  | rule {name : Rule} {text rest : List Char} (h : Derives name.form text rest) :
      Derives (.rule name) text rest
  | sequence {first second : Form} {text middle next rest : List Char}
      (hfirst : Derives first text middle) (hgap : Gap middle next)
      (hsecond : Derives second next rest) : Derives (.sequence first second) text rest
  | left {first second : Form} {text rest : List Char} (h : Derives first text rest) :
      Derives (.choice first second) text rest
  | right {first second : Form} {text rest : List Char} (h : Derives second text rest) :
      Derives (.choice first second) text rest
  | stop {form : Form} (text : List Char) : Derives (.repeated form) text text
  | more {form : Form} {text middle next rest : List Char} (hfirst : Derives form text middle)
      (hgap : Gap middle next) (hrest : Derives (.repeated form) next rest) :
      Derives (.repeated form) text rest
  | absent {form : Form} (text : List Char) : Derives (.optionally form) text text
  | present {form : Form} {text rest : List Char} (h : Derives form text rest) :
      Derives (.optionally form) text rest

/-- The whole text follows the grammar. -/
def FollowsGrammar (source : List Char) : Prop := Derives (.rule .file) source []

section

variable {first second form : Form} {letters text rest : List Char}

theorem derives_symbol_iff : Derives (.symbol letters) text rest ↔ text = letters ++ rest := by
  constructor
  · rintro ⟨⟩
    rfl
  · rintro rfl
    exact .symbol letters rest

theorem derives_word_iff :
    Derives (.word letters) text rest ↔ text = letters ++ rest ∧ AtWordEnd rest := by
  constructor
  · rintro ⟨⟩
    exact ⟨rfl, ‹_›⟩
  · rintro ⟨rfl, hend⟩
    exact .word letters hend

theorem derives_longest_iff {language : List Char → Prop} :
    Derives (.longest language) text rest ↔ Longest language text rest := by
  constructor
  · intro h
    cases h
    assumption
  · exact .longest

theorem derives_rule_iff {name : Rule} :
    Derives (.rule name) text rest ↔ Derives name.form text rest := by
  constructor
  · intro h
    cases h
    assumption
  · exact .rule

theorem derives_sequence_iff :
    Derives (.sequence first second) text rest ↔
      ∃ middle next, Derives first text middle ∧ Gap middle next ∧ Derives second next rest := by
  constructor
  · intro h
    cases h with
    | sequence hfirst hgap hsecond => exact ⟨_, _, hfirst, hgap, hsecond⟩
  · rintro ⟨middle, next, hfirst, hgap, hsecond⟩
    exact .sequence hfirst hgap hsecond

theorem derives_choice_iff :
    Derives (.choice first second) text rest ↔
      Derives first text rest ∨ Derives second text rest := by
  constructor
  · intro h
    cases h with
    | left h => exact .inl h
    | right h => exact .inr h
  · rintro (h | h)
    · exact .left h
    · exact .right h

theorem derives_repeated_iff :
    Derives (.repeated form) text rest ↔ text = rest ∨ ∃ middle next, Derives form text middle ∧
      Gap middle next ∧ Derives (.repeated form) next rest := by
  constructor
  · intro h
    cases h with
    | stop text => exact .inl rfl
    | more hfirst hgap hrest => exact .inr ⟨_, _, hfirst, hgap, hrest⟩
  · rintro (rfl | ⟨middle, next, hfirst, hgap, hrest⟩)
    · exact .stop text
    · exact .more hfirst hgap hrest

theorem derives_optionally_iff :
    Derives (.optionally form) text rest ↔ text = rest ∨ Derives form text rest := by
  constructor
  · intro h
    cases h with
    | absent text => exact .inl rfl
    | present h => exact .inr h
  · rintro (rfl | h)
    · exact .absent text
    · exact .present h

/-- A derivation passes over a part of the text, and what is behind it stays as it is. -/
theorem Derives.suffix (h : Derives form text rest) : rest <:+ text := by
  induction h with
  | nothing text => exact List.suffix_rfl
  | finish => exact List.suffix_rfl
  | symbol letters rest => exact List.suffix_append letters rest
  | word letters hend => exact List.suffix_append letters _
  | longest h =>
      obtain ⟨spelling, -, rfl, -⟩ := h
      exact List.suffix_append spelling _
  | rule _ ih => exact ih
  | sequence _ hgap _ ihfirst ihsecond => exact ihsecond.trans (hgap.suffix.trans ihfirst)
  | left _ ih => exact ih
  | right _ ih => exact ih
  | stop text => exact List.suffix_rfl
  | more _ hgap _ ihfirst ihrest => exact ihrest.trans (hgap.suffix.trans ihfirst)
  | absent text => exact List.suffix_rfl
  | present _ ih => exact ih

/-- A derivation does not add to the text. -/
theorem Derives.length_le (h : Derives form text rest) : rest.length ≤ text.length :=
  h.suffix.length_le

end

end DecisionTuples
