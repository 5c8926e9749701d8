import DecisionTuples.Grammar.Parse
import DecisionTuples.Proofs.Except
import DecisionTuples.Proofs.Feature.Meaning

/-!
# The constants that a text can denote

A condition that was read from a text is ordered: a text can denote infinities, but
has no way to denote `nan`.

Facts of this kind follow the combinators.  `Parser.Yields` says that every value a
parser gives has a property, and there is one rule for each combinator.
-/

namespace DecisionTuples

/-! ## Numbers -/

namespace Number

theorem ofRatio_ne_nan (negative : Bool) (num den : Nat) : ofRatio negative num den ≠ nan :=
  ofRank_ne_nan _ _

end Number

theorem Decimal.toNumber_ne_nan (negative : Bool) (d : Decimal) : d.toNumber negative ≠ .nan := by
  unfold Decimal.toNumber
  split
  · exact Number.ofRank_ne_nan _ _
  · split
    · exact Number.ofRank_ne_nan _ _
    · split
      · exact Number.ofRank_ne_nan _ _
      · exact Number.ofRatio_ne_nan _ _ _

theorem Numeral.value_ne_nan (numeral : Numeral) (negative : Bool) :
    numeral.value negative ≠ .nan :=
  Decimal.toNumber_ne_nan _ _

theorem readNumber?_ne_nan {text rest : List Char} {constant : Number}
    (h : readNumber? text = some (constant, rest)) : constant ≠ .nan := by
  unfold readNumber? at h
  split at h
  -- With a sign and without one there is an infinity, or else a numeral.
  all_goals
    split at h
    · cases h
      exact Number.ofRank_ne_nan _ _
    · obtain ⟨⟨numeral, last⟩, -, heq⟩ := Option.map_eq_some_iff.mp h
      cases heq
      exact numeral.value_ne_nan _

/-! ## Parsers -/

namespace Parser

variable {α β : Type} {P : α → Prop} {Q : β → Prop} {p q : Parser α}

/-- Every value that the parser gives has the property. -/
def Yields (p : Parser α) (P : α → Prop) : Prop :=
  ∀ text a rest, p.run text = some (a, rest) → P a

theorem Yields.trivial (p : Parser α) : p.Yields fun _ => True := fun _ _ _ _ => True.intro

theorem Yields.pure {a : α} (h : P a) : Yields (pure a) P := by
  intro text a' rest hrun
  cases hrun
  exact h

theorem Yields.bind {f : α → Parser β} (hp : p.Yields P) (hf : ∀ a, P a → (f a).Yields Q) :
    (p >>= f).Yields Q := by
  intro text b rest hrun
  rw [run_bind] at hrun
  obtain ⟨⟨a, middle⟩, ha, hb⟩ := Option.bind_eq_some_iff.mp hrun
  exact hf a (hp text a middle ha) middle b rest hb

theorem Yields.orElse (hp : p.Yields P) (hq : q.Yields P) : (orElse p q).Yields P := by
  intro text a rest hrun
  rw [run_orElse, Option.or_eq_some_iff] at hrun
  rcases hrun with hfirst | ⟨-, hsecond⟩
  · exact hp text a rest hfirst
  · exact hq text a rest hsecond

theorem Yields.optional (hp : p.Yields P) : (optional p).Yields fun found => ∀ a ∈ found, P a := by
  intro text found rest hrun
  unfold Parser.optional at hrun
  dsimp only at hrun
  split at hrun
  · next a _ ha =>
      cases hrun
      rintro a' ⟨⟩
      exact hp text a rest ha
  · cases hrun
    nofun

theorem Yields.runMany (hp : p.Yields P) (bound : Nat) (text : List Char) :
    ∀ a ∈ (runMany p bound text).1, P a := by
  induction bound generalizing text with
  | zero => nofun
  | succ bound ih =>
      rw [Parser.runMany]
      split
      · nofun
      · next a middle ha =>
          intro a' ha'
          rcases List.mem_cons.mp ha' with rfl | hmem
          · exact hp text a' middle ha
          · exact ih middle a' hmem

theorem Yields.many (hp : p.Yields P) : (many p).Yields fun as => ∀ a ∈ as, P a := by
  intro text as rest hrun
  have has : (Parser.runMany p (text.length + 1) text).1 = as :=
    congrArg Prod.fst (Option.some_inj.mp hrun)
  rw [← has]
  exact hp.runMany _ text

theorem Yields.many1 (hp : p.Yields P) : (many1 p).Yields fun as => ∀ a ∈ as, P a :=
  hp.bind fun _ ha => hp.many.bind fun _ has =>
    .pure (List.forall_mem_cons.mpr ⟨ha, has⟩)

theorem Yields.rule (hp : p.Yields P) (name : Rule) : (rule name p).Yields P := hp

/-- A parser whose value is not looked at. -/
theorem Yields.then {f : α → Parser β} (hf : ∀ a, (f a).Yields Q) : (p >>= f).Yields Q :=
  (Yields.trivial p).bind fun a _ => hf a

theorem lexeme_yields {read : List Char → Option (α × List Char)}
    (h : ∀ text a rest, read text = some (a, rest) → P a) : (lexeme read).Yields P := by
  intro text a rest hrun
  obtain ⟨⟨a', middle⟩, ha, heq⟩ := Option.map_eq_some_iff.mp hrun
  cases heq
  exact h text a middle ha

/-! ## Conditions -/

theorem number_yields : number.Yields fun constant => constant ≠ .nan :=
  (lexeme_yields fun _ _ _ => readNumber?_ne_nan).rule .number

theorem interval_yields :
    interval.Yields fun found => found.1.lo ≠ .nan ∧ found.1.hi ≠ .nan :=
  .rule (.then fun _ => number_yields.bind fun _ hlo => .then fun _ =>
    number_yields.bind fun _ hhi => .then fun _ => .pure ⟨hlo, hhi⟩) _

theorem condition_yields : condition.Yields Condition.Ordered := by
  refine .orElse ?_ (.orElse ?_ (.orElse ?_ (.orElse ?_ ?_)))
  · exact .rule (.then fun _ => .then fun _ => .then fun _ => .pure True.intro) _
  · exact .rule (.then fun _ => .then fun _ => .then fun _ => .pure True.intro) _
  · refine .rule (number_yields.bind fun _ hconstant => .then fun _ => .then fun _ => .pure ?_) _
    exact hconstant
  · refine .rule (.then fun _ => .then fun _ => number_yields.bind fun _ hconstant => .pure ?_) _
    exact hconstant
  · refine .rule (.then fun _ => .then fun _ => interval_yields.bind fun _ hbounds => .pure ?_) _
    exact hbounds

theorem conditions_yields :
    conditions.Yields fun found => ∀ condition ∈ found, condition.Ordered :=
  .rule (condition_yields.bind fun _ hfirst =>
    (Yields.then fun _ => condition_yields).many.bind fun _ hothers =>
      .pure (List.forall_mem_cons.mpr ⟨hfirst, hothers⟩)) _

theorem guard_yields : guard.Yields fun found => ∀ condition ∈ found, condition.Ordered :=
  .then fun _ => conditions_yields.bind fun _ h => .then fun _ => .pure h

end Parser

/-! ## Decisions -/

/-- No constant met at a decision or in its body is `nan`. -/
def Decision.Ordered (decision : Decision) : Prop :=
  ∀ node ∈ decision.nodes, ∀ condition ∈ node.conditions, condition.Ordered

theorem ordered_forestNodes {decisions : List Decision} (h : ∀ d ∈ decisions, d.Ordered) :
    ∀ node ∈ forestNodes decisions, ∀ condition ∈ node.conditions, condition.Ordered := by
  induction decisions with
  | nil => nofun
  | cons decision rest ih =>
      rw [List.forall_mem_cons] at h
      intro node hnode
      rw [forestNodes, List.mem_append] at hnode
      rcases hnode with hfirst | hrest
      · exact h.1 node hfirst
      · exact ih h.2 node hrest

theorem Decision.ordered_mk {conditions : List Condition} {body : Option (List Decision)}
    {elseIfs : List ElseIf} {otherwise : Option (List Decision)}
    (hconditions : ∀ condition ∈ conditions, condition.Ordered)
    (hbody : ∀ decisions ∈ body, ∀ d ∈ decisions, d.Ordered) :
    (Decision.mk conditions body elseIfs otherwise).Ordered := by
  intro node hnode
  rw [Decision.nodes] at hnode
  rcases List.mem_cons.mp hnode with rfl | hbelow
  · exact hconditions
  · cases body with
    | none => cases hbelow
    | some decisions => exact ordered_forestNodes (hbody decisions rfl) node hbelow

theorem Parser.decision_yields (depth : Nat) : (decision depth).Yields Decision.Ordered := by
  induction depth with
  | zero => nofun
  | succ depth ih =>
      -- The alternatives are read as well, but no way through the feature enters them.
      have hbody : (body (decision depth)).Yields fun found => ∀ d ∈ found, d.Ordered :=
        .rule (.then fun _ => ih.many.bind fun _ h => .then fun _ => .pure h) _
      exact .rule (.then fun _ => guard_yields.bind fun _ hconditions =>
        hbody.optional.bind fun _ hbelow => .then fun _ => .then fun _ =>
          .pure (Decision.ordered_mk hconditions hbelow)) _

/-! ## Features -/

/-- No constant in a decision at the front is `nan`; nested statements are not looked
at. -/
def Item.Ordered : Item → Prop
  | .decision found => found.Ordered
  | _ => True

theorem Parser.feature_yields (depth : Nat) :
    (feature depth).Yields fun items => ∀ item ∈ items, item.Ordered := by
  cases depth with
  | zero => nofun
  | succ depth =>
      have hitem : (item depth (feature depth)).Yields Item.Ordered := by
        refine .orElse ?_ (.orElse ?_ ?_)
        · exact .rule (.then fun _ => .then fun _ => .then fun _ => .then fun _ =>
            .pure True.intro) _
        · exact (decision_yields depth).bind fun _ h => .pure h
        · exact .then fun _ => .pure True.intro
      exact .rule (.then fun _ => hitem.many1.bind fun _ h => .then fun _ => .pure h) _

theorem Parser.source_yields (length : Nat) :
    (source length).Yields fun items => ∀ item ∈ items, item.Ordered :=
  .rule (.then fun _ => (feature_yields _).bind fun _ h => .then fun _ => .pure h) _

/-- The decisions of a feature are the statements that are decisions. -/
theorem Feature.ofItems_ordered {items : List Item} {feature : Feature}
    (h : Feature.ofItems items = .ok feature) (hitems : ∀ item ∈ items, item.Ordered) :
    ∀ decision ∈ feature.decisions, decision.Ordered := by
  induction items generalizing feature with
  | nil =>
      rw [Feature.ofItems] at h
      cases h
      exact List.forall_mem_nil _
  | cons item rest ih =>
      rw [List.forall_mem_cons] at hitems
      rw [Feature.ofItems] at h
      obtain ⟨add, hadd, h⟩ := bind_eq_ok h
      obtain ⟨others, hrest, h⟩ := bind_eq_ok h
      cases h
      have hothers := ih hrest hitems.2
      cases item with
      | declaration name type =>
          obtain ⟨declared, -, hdeclared⟩ := bind_eq_ok hadd
          cases hdeclared
          exact hothers
      | decision found =>
          cases hadd
          exact List.forall_mem_cons.mpr ⟨hitems.1, hothers⟩
      | nested items =>
          obtain ⟨inner, -, hinner⟩ := bind_eq_ok hadd
          cases hinner
          exact hothers

/-- A precision that is accepted is a number. -/
theorem TypeExpr.precise_of_valueType {type : TypeExpr} {declared : ValueType}
    (h : type.valueType = .ok declared) : declared.precision? ≠ some .nan := by
  cases type with
  | bool =>
      cases h
      nofun
  | int =>
      cases h
      exact fun heq => Number.ofRatio_ne_nan _ _ _ (Option.some_inj.mp heq)
  | num =>
      cases h
      exact fun heq => Number.ofRatio_ne_nan _ _ _ (Option.some_inj.mp heq)
  | numWith precision =>
      simp only [TypeExpr.valueType] at h
      split at h <;> cases h
      exact fun heq => precision.value_ne_nan false (Option.some_inj.mp heq)

/-- Every declared precision is a number. -/
theorem Feature.ofItems_precise {items : List Item} {feature : Feature}
    (h : Feature.ofItems items = .ok feature) :
    ∀ declared ∈ feature.declarations, declared.type.precision? ≠ some .nan := by
  induction items generalizing feature with
  | nil =>
      rw [Feature.ofItems] at h
      cases h
      exact List.forall_mem_nil _
  | cons item rest ih =>
      rw [Feature.ofItems] at h
      obtain ⟨add, hadd, h⟩ := bind_eq_ok h
      obtain ⟨others, hrest, h⟩ := bind_eq_ok h
      cases h
      have hothers := ih hrest
      cases item with
      | declaration name type =>
          obtain ⟨declared, htype, hdeclared⟩ := bind_eq_ok hadd
          cases hdeclared
          exact List.forall_mem_cons.mpr ⟨TypeExpr.precise_of_valueType htype, hothers⟩
      | decision found =>
          cases hadd
          exact hothers
      | nested items =>
          obtain ⟨inner, -, hinner⟩ := bind_eq_ok hadd
          cases hinner
          exact hothers

theorem Feature.parse_precise {source : List Char} {feature : Feature}
    (h : Feature.parse source = .ok feature) :
    ∀ declared ∈ feature.declarations, declared.type.precision? ≠ some .nan := by
  unfold Feature.parse at h
  split at h
  · cases h
  · exact Feature.ofItems_precise (mapError_eq_ok h)

/-- **What was read is ordered.**  No condition on a way through a feature that was read
from a text has `nan` for a constant or a bound. -/
theorem Feature.parse_ordered {source : List Char} {feature : Feature}
    (h : Feature.parse source = .ok feature) :
    ∀ conditions ∈ feature.writtenPaths, ∀ condition ∈ conditions, condition.Ordered := by
  unfold Feature.parse at h
  split at h
  · cases h
  · next items rest hrun =>
      have hdecisions := Feature.ofItems_ordered (mapError_eq_ok h)
        (Parser.source_yields source.length source items rest hrun)
      have hnodes := ordered_forestNodes hdecisions
      intro conditions hconditions condition hcondition
      obtain ⟨trail, htrail, rfl⟩ := List.mem_map.mp hconditions
      obtain ⟨node, hnode, hmem⟩ := List.mem_flatMap.mp hcondition
      exact hnodes node (mem_forestNodes_of_trail _ trail htrail node hnode) condition hmem

end DecisionTuples
