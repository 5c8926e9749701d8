import DecisionTuples.Grammar.Rule

/-!
# Readers that remember where they failed

A parser takes a value off the front of a text.  It answers in two independent
ways:

* `run` gives the value and the rest of the text, or nothing;
* `track` says, for the same text, what became of the *furthest attempt*, the
  place nearest the end of the text at which some rule was tried in vain, with
  the rules tried there.

What `run` gives never depends on what was tracked, and `track` is only asked
after a whole text could not be read.  Choice is ordered: a second alternative
is tried only where the first one fails, on the same text, and a successful
alternative is final.  Repetition takes as many values as it can.

A rule that fails is recorded at the place where it began, in the place of the
rules tried inside it at that same place, unless exactly one was: that one says
more.  Attempts nearer the front than the furthest ones are forgotten.
-/

namespace DecisionTuples

/-- The furthest place at which rules were tried in vain. -/
structure Furthest where
  /-- How many characters are left from that place on. -/
  remaining : Nat
  /-- The rules tried there, in order, repetitions included. -/
  rules : List Rule

namespace Furthest

/-- Nothing was tried yet on a text of the given length. -/
def start (length : Nat) : Furthest := ⟨length, []⟩

/-- How many rules are recorded at the place with this many characters left. -/
def countAt (furthest : Furthest) (remaining : Nat) : Nat :=
  if furthest.remaining = remaining then furthest.rules.length else 0

/-- Record that `rule` failed with `remaining` characters left, where `before`
rules had been recorded when it began. -/
def record (furthest : Furthest) (rule : Rule) (remaining before : Nat) : Furthest :=
  if furthest.countAt remaining - before = 1 then furthest
  else if remaining = furthest.remaining then
    ⟨remaining, furthest.rules.take before ++ [rule]⟩
  else if remaining < furthest.remaining then ⟨remaining, [rule]⟩
  else furthest

end Furthest

/-- A parser for values of type `α`. -/
structure Parser (α : Type) where
  run : List Char → Option (α × List Char)
  track : List Char → Furthest → Furthest

namespace Parser

variable {α β : Type}

/-- The parser that reads nothing and gives a value. -/
protected def pure (a : α) : Parser α where
  run text := some (a, text)
  track _ furthest := furthest

/-- The parser that reads with one parser and goes on with another. -/
protected def bind (p : Parser α) (f : α → Parser β) : Parser β where
  run text :=
    match p.run text with
    | none => none
    | some (a, rest) => (f a).run rest
  track text furthest :=
    match p.run text with
    | none => p.track text furthest
    | some (a, rest) => (f a).track rest (p.track text furthest)

instance : Monad Parser where
  pure := Parser.pure
  bind := Parser.bind

@[simp] theorem run_pure (a : α) (text : List Char) :
    (pure a : Parser α).run text = some (a, text) := rfl

@[simp] theorem run_bind (p : Parser α) (f : α → Parser β) (text : List Char) :
    (p >>= f).run text = (p.run text).bind fun result => (f result.1).run result.2 := by
  change (match p.run text with
    | none => none
    | some (a, rest) => (f a).run rest) = _
  cases p.run text <;> rfl

/-- The parser that always fails. -/
def fail : Parser α where
  run _ := none
  track _ furthest := furthest

@[simp] theorem run_fail (text : List Char) : (fail : Parser α).run text = none := rfl

/-- A piece of text that is read as a whole, without attempts of its own. -/
def token (read : List Char → Option (α × List Char)) : Parser α where
  run := read
  track _ furthest := furthest

@[simp] theorem run_token (read : List Char → Option (α × List Char)) (text : List Char) :
    (token read).run text = read text := rfl

/-- The first of two alternatives that succeeds. -/
def orElse (p q : Parser α) : Parser α where
  run text :=
    match p.run text with
    | some result => some result
    | none => q.run text
  track text furthest :=
    match p.run text with
    | some _ => p.track text furthest
    | none => q.track text (p.track text furthest)

@[simp] theorem run_orElse (p q : Parser α) (text : List Char) :
    (orElse p q).run text = (p.run text).or (q.run text) := by
  change (match p.run text with
    | some result => some result
    | none => q.run text) = _
  cases p.run text <;> rfl

/-- What the parser reads, or nothing where it fails. -/
def optional (p : Parser α) : Parser (Option α) where
  run text :=
    match p.run text with
    | some (a, rest) => some (some a, rest)
    | none => some (none, text)
  track := p.track

/-- The values of at most `bound` repetitions. -/
def runMany (p : Parser α) : Nat → List Char → List α × List Char
  | 0, text => ([], text)
  | bound + 1, text =>
    match p.run text with
    | none => ([], text)
    | some (a, rest) =>
      let (others, last) := runMany p bound rest
      (a :: others, last)

/-- The attempts made by at most `bound` repetitions. -/
def trackMany (p : Parser α) : Nat → List Char → Furthest → Furthest
  | 0, _, furthest => furthest
  | bound + 1, text, furthest =>
    match p.run text with
    | none => p.track text furthest
    | some (_, rest) => trackMany p bound rest (p.track text furthest)

/-- As many values as can be read.  Each value takes at least one character, so
the length of the text bounds the repetitions; the last attempt fails. -/
def many (p : Parser α) : Parser (List α) where
  run text := some (runMany p (text.length + 1) text)
  track text := trackMany p (text.length + 1) text

/-- As many values as can be read, and at least one. -/
def many1 (p : Parser α) : Parser (List α) := do
  let first ← p
  let others ← many p
  return first :: others

/-- The parser of a named rule: it reads what `p` reads, and records its failure
under its name. -/
def rule (name : Rule) (p : Parser α) : Parser α where
  run := p.run
  track text furthest :=
    match p.run text with
    | some _ => p.track text furthest
    | none =>
      (p.track text furthest).record name text.length (furthest.countAt text.length)

/-- A name has no influence on what is read. -/
@[simp] theorem run_rule (name : Rule) (p : Parser α) (text : List Char) :
    (rule name p).run text = p.run text := rfl

end Parser
end DecisionTuples
