import DecisionTuples.Grammar.Parse
import DecisionTuples.Proofs.Grammar.Form
import DecisionTuples.Proofs.Number.Exact

/-!
# How a feature is written

A feature is written as a list of tokens, and its text is the tokens with single spaces
between them.  The tokens follow the rules of the language: declarations, then decisions,
then nested features, each in order; a number on the side of a comparison on which it
was given; braces where there is a body, and only there.  A finite number is written with
all its decimal places, and a sign belongs to its token.

Where a feature does not say how it is to be written, a `Style` does.  Not every feature
can be written so that it can be read again; `Feature.Writable` says which can, and it can
be decided.
-/

namespace DecisionTuples

/-- The characters of a token. -/
abbrev Token := List Char

/-- The tokens with single spaces between them. -/
def lay (tokens : List Token) : List Char := [' '].intercalate tokens

/-- How a feature is written where it leaves a choice. -/
structure Style where
  /-- The side on which the truth value of a comparison stands. -/
  side : Condition → Side
  /-- The type of the variable is written by its name, if it has one. -/
  named : Variable → Bool

/-! ## Numbers -/

namespace Number

/-- The magnitude with all its digits, or the word for infinity. -/
def magnitudeToken (rank : Nat) : Token :=
  if rank = infiniteRank then infinityWord else (exactNumeral rank).spelling.toList

/-- The number with all its digits under its sign. -/
def exactToken : Number → Token
  | nan => []
  | signed negative rank => withSign negative (magnitudeToken rank.val)

end Number

/-! ## Conditions -/

/-- The word for a truth value. -/
def truthToken : Bool → Token
  | true => ['t', 'r', 'u', 'e']
  | false => ['f', 'a', 'l', 's', 'e']

/-- The bracket before an interval. -/
def Openness.lowerToken (openness : Openness) : Token := if openness.lo then ['('] else ['[']

/-- The bracket behind an interval. -/
def Openness.upperToken (openness : Openness) : Token := if openness.hi then [')'] else [']']

namespace Style

/-- The tokens of a condition. -/
def condition (style : Style) : Condition → List Token
  | .truth name equality value =>
    match style.side (.truth name equality value) with
    | .left => [truthToken value, equality.spelling, name.toList]
    | .right => [name.toList, equality.spelling, truthToken value]
  | .comparison name .left constant written =>
    [constant.exactToken, written.spelling, name.toList]
  | .comparison name .right constant written =>
    [name.toList, written.spelling, constant.exactToken]
  | .membership name interval openness =>
    [name.toList, ['i', 'n'], openness.lowerToken, interval.lo.exactToken, [','],
      interval.hi.exactToken, openness.upperToken]

/-- Conditions between parentheses, with `&&` between two. -/
def guard (style : Style) (conditions : List Condition) : List Token :=
  ['('] :: [['&', '&']].intercalate (conditions.map style.condition) ++ [[')']]

/-! ## Declarations -/

/-- The tokens of a declared type. -/
def type (style : Style) (declared : Variable) : List Token :=
  match declared.type with
  | .bool => [['b', 'o', 'o', 'l']]
  | .number precision =>
    if style.named declared ∧ declared.type = .int then [['i', 'n', 't']]
    else if style.named declared ∧ declared.type = .num then [['n', 'u', 'm']]
    else [['n', 'u', 'm'], ['('], precision.exactToken, [')']]

/-- The tokens of a declaration. -/
def declaration (style : Style) (declared : Variable) : List Token :=
  [['v', 'a', 'r'], declared.name.toList, [':']] ++ style.type declared

/-! ## Decisions -/

mutual

/-- The tokens of a decision. -/
def decision (style : Style) : Decision → List Token
  | ⟨conditions, body, elseIfs, otherwise⟩ =>
    ['i', 'f'] :: style.guard conditions ++ style.body body ++ style.elseIfs elseIfs ++
      style.otherwise otherwise

/-- The decisions of a body between braces; no body has no braces. -/
def body (style : Style) : Option (List Decision) → List Token
  | none => []
  | some decisions => ['\x7b'] :: style.decisions decisions ++ [['\x7d']]

/-- The tokens of several decisions. -/
def decisions (style : Style) : List Decision → List Token
  | [] => []
  | decision :: rest => style.decision decision ++ style.decisions rest

/-- The tokens of an alternative with conditions. -/
def elseIf (style : Style) : ElseIf → List Token
  | ⟨conditions, body⟩ =>
    ['e', 'l', 's', 'e'] :: ['i', 'f'] :: style.guard conditions ++ style.body body

/-- The tokens of several alternatives with conditions. -/
def elseIfs (style : Style) : List ElseIf → List Token
  | [] => []
  | alternative :: rest => style.elseIf alternative ++ style.elseIfs rest

/-- The tokens of the closing alternative, if there is one. -/
def otherwise (style : Style) : Option (List Decision) → List Token
  | none => []
  | some decisions =>
    ['e', 'l', 's', 'e'] :: ['\x7b'] :: style.decisions decisions ++ [['\x7d']]

end

/-! ## Features -/

mutual

/-- The tokens of a feature. -/
def feature (style : Style) : Feature → List Token
  | ⟨declarations, decisions, features⟩ =>
    ['['] :: declarations.flatMap style.declaration ++ style.decisions decisions ++
      style.features features ++ [[']']]

/-- The tokens of several features. -/
def features (style : Style) : List Feature → List Token
  | [] => []
  | feature :: rest => style.feature feature ++ style.features rest

end

/-- The text of a feature. -/
def text (style : Style) (feature : Feature) : String := .ofList (lay (style.feature feature))

end Style

/-! ## What can be written -/

/-- The name can be read as the name of a variable, and as nothing else. -/
def NameWritable (name : String) : Prop :=
  IsName name.toList ∧ name ∉ ["true", "false", "Inf"]

/-- A precision is finite and greater than zero. -/
def Variable.Writable (declared : Variable) : Prop :=
  NameWritable declared.name ∧
    ∀ precision ∈ declared.type.precision?, precision.isPositive ∧ precision.isFinite

/-- No constant and no bound is `nan`. -/
def Condition.Writable (condition : Condition) : Prop :=
  NameWritable condition.name ∧
    match condition with
    | .truth _ _ _ => True
    | .comparison _ _ constant _ => constant ≠ .nan
    | .membership _ interval _ => interval.lo ≠ .nan ∧ interval.hi ≠ .nan

/-- There are conditions, and each can be written. -/
def GuardWritable (conditions : List Condition) : Prop :=
  conditions ≠ [] ∧ ∀ condition ∈ conditions, condition.Writable

mutual

/-- Every list of conditions in the tree can be written. -/
def Decision.Writable : Decision → Prop
  | ⟨conditions, body, elseIfs, otherwise⟩ =>
    GuardWritable conditions ∧ BlockWritable body ∧ ElseIfsWritable elseIfs ∧
      BlockWritable otherwise

/-- Every decision between the braces can be written. -/
def BlockWritable : Option (List Decision) → Prop
  | none => True
  | some decisions => DecisionsWritable decisions

/-- Every one of the decisions can be written. -/
def DecisionsWritable : List Decision → Prop
  | [] => True
  | decision :: rest => decision.Writable ∧ DecisionsWritable rest

/-- The alternative has conditions, and all of it can be written. -/
def ElseIf.Writable : ElseIf → Prop
  | ⟨conditions, body⟩ => GuardWritable conditions ∧ BlockWritable body

/-- Every one of the alternatives can be written. -/
def ElseIfsWritable : List ElseIf → Prop
  | [] => True
  | alternative :: rest => alternative.Writable ∧ ElseIfsWritable rest

end

mutual

/-- The feature and all features in it have a statement each, and every statement can be
written. -/
def Feature.Writable : Feature → Prop
  | ⟨declarations, decisions, features⟩ =>
    (declarations ≠ [] ∨ decisions ≠ [] ∨ features ≠ []) ∧
      (∀ declared ∈ declarations, declared.Writable) ∧ DecisionsWritable decisions ∧
        FeaturesWritable features

/-- Every one of the features can be written. -/
def FeaturesWritable : List Feature → Prop
  | [] => True
  | feature :: rest => feature.Writable ∧ FeaturesWritable rest

end

/-! ## Deciding what can be written -/

instance : DecidablePred IsName
  | [] => isFalse (by rintro ⟨c, rest, h, -⟩; cases h)
  | c :: rest => decidable_of_iff (isWordStart c = true ∧ rest.all isWordChar = true) <| by
    rw [List.all_eq_true]
    constructor
    · rintro ⟨hc, hrest⟩
      exact ⟨c, rest, rfl, hc, hrest⟩
    · rintro ⟨_, _, heq, hc, hrest⟩
      cases heq
      exact ⟨hc, hrest⟩

instance (name : String) : Decidable (NameWritable name) :=
  inferInstanceAs (Decidable (_ ∧ _))

instance (declared : Variable) : Decidable declared.Writable :=
  inferInstanceAs (Decidable (_ ∧ ∀ precision ∈ declared.type.precision?, _))

instance : DecidablePred Condition.Writable
  | .truth name _ _ => inferInstanceAs (Decidable (NameWritable name ∧ True))
  | .comparison name _ constant _ =>
    inferInstanceAs (Decidable (NameWritable name ∧ constant ≠ .nan))
  | .membership name interval _ =>
    inferInstanceAs (Decidable (NameWritable name ∧ interval.lo ≠ .nan ∧ interval.hi ≠ .nan))

instance (conditions : List Condition) : Decidable (GuardWritable conditions) :=
  inferInstanceAs (Decidable (_ ∧ _))

mutual

instance Decision.decidableWritable : DecidablePred Decision.Writable
  | ⟨conditions, body, elseIfs, otherwise⟩ =>
    have := decidableBlockWritable body
    have := decidableElseIfsWritable elseIfs
    have := decidableBlockWritable otherwise
    inferInstanceAs (Decidable (GuardWritable conditions ∧ BlockWritable body ∧
      ElseIfsWritable elseIfs ∧ BlockWritable otherwise))

instance decidableBlockWritable : DecidablePred BlockWritable
  | none => isTrue trivial
  | some decisions => decidableDecisionsWritable decisions

instance decidableDecisionsWritable : DecidablePred DecisionsWritable
  | [] => isTrue trivial
  | decision :: rest =>
    have := decision.decidableWritable
    have := decidableDecisionsWritable rest
    inferInstanceAs (Decidable (decision.Writable ∧ DecisionsWritable rest))

instance ElseIf.decidableWritable : DecidablePred ElseIf.Writable
  | ⟨conditions, body⟩ =>
    have := decidableBlockWritable body
    inferInstanceAs (Decidable (GuardWritable conditions ∧ BlockWritable body))

instance decidableElseIfsWritable : DecidablePred ElseIfsWritable
  | [] => isTrue trivial
  | alternative :: rest =>
    have := alternative.decidableWritable
    have := decidableElseIfsWritable rest
    inferInstanceAs (Decidable (alternative.Writable ∧ ElseIfsWritable rest))

end

mutual

instance Feature.decidableWritable : DecidablePred Feature.Writable
  | ⟨declarations, decisions, features⟩ =>
    have := decidableFeaturesWritable features
    inferInstanceAs (Decidable ((declarations ≠ [] ∨ decisions ≠ [] ∨ features ≠ []) ∧
      (∀ declared ∈ declarations, declared.Writable) ∧ DecisionsWritable decisions ∧
        FeaturesWritable features))

instance decidableFeaturesWritable : DecidablePred FeaturesWritable
  | [] => isTrue trivial
  | feature :: rest =>
    have := feature.decidableWritable
    have := decidableFeaturesWritable rest
    inferInstanceAs (Decidable (feature.Writable ∧ FeaturesWritable rest))

end

end DecisionTuples
