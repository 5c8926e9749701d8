import DecisionTuples.Proofs.Grammar.Constants
import DecisionTuples.Proofs.Grammar.Literal

/-!
# Every syntax tree can be built, but for its precisions

`settles_buildSource` says what becomes of the syntax tree of a source, whatever derivation it
comes from: the first of its precisions that is not greater than zero is refused, and if there
is none, a well-formed feature is built.  No node is ever missing, and every other token
denotes something.

The precisions are taken in the order of the text.  Builders go through the nodes in this
order as well and stop at the first error, so what `Settles` a part also settles a whole that
begins with it (`Settles.bind`).
-/

namespace DecisionTuples

open Node

/-! ## What can be built -/

/-- The condition is about a name, and no constant and no bound of it is `nan`. -/
def Condition.WellFormed (condition : Condition) : Prop :=
  IsName condition.name.toList ∧ condition.Ordered

/-- There are conditions, and all are well formed. -/
def GuardWellFormed (conditions : List Condition) : Prop :=
  conditions ≠ [] ∧ ∀ condition ∈ conditions, condition.WellFormed

/-- The conditions of the decision, of its alternatives and of all decisions below them are
well formed. -/
inductive Decision.WellFormed : Decision → Prop
  | mk {conditions : List Condition} {body otherwise : Option (List Decision)}
      {elseIfs : List ElseIf} (hconditions : GuardWellFormed conditions)
      (hbody : ∀ decisions ∈ body, ∀ decision ∈ decisions, WellFormed decision)
      (helseIfs : ∀ alternative ∈ elseIfs, GuardWellFormed alternative.conditions)
      (hbelow : ∀ alternative ∈ elseIfs, ∀ decisions ∈ alternative.body,
        ∀ decision ∈ decisions, WellFormed decision)
      (hotherwise : ∀ decisions ∈ otherwise, ∀ decision ∈ decisions, WellFormed decision) :
      WellFormed ⟨conditions, body, elseIfs, otherwise⟩

/-- The variable has a name, and its precision is greater than zero. -/
def Variable.WellFormed (declared : Variable) : Prop :=
  IsName declared.name.toList ∧ ∀ precision ∈ declared.type.precision?, Number.zero < precision

/-- The feature has a statement, and so has every feature in it, and all their statements are
well formed. -/
inductive Feature.WellFormed : Feature → Prop
  | mk {declarations : List Variable} {decisions : List Decision} {features : List Feature}
      (hstatement : declarations ≠ [] ∨ decisions ≠ [] ∨ features ≠ [])
      (hdeclarations : ∀ declared ∈ declarations, declared.WellFormed)
      (hdecisions : ∀ decision ∈ decisions, decision.WellFormed)
      (hfeatures : ∀ feature ∈ features, WellFormed feature) :
      WellFormed ⟨declarations, decisions, features⟩

/-! ## Precisions that are refused -/

/-- The letters denote a number that is not greater than zero. -/
def refuses (letters : List Char) : Bool :=
  (Number.ofText? letters).any fun value => !decide (Number.zero < value)

/-- Of several precisions the first refused one is the error, and if there is none, something
with the property is built. -/
def Settles {α : Type} (x : Except BuildError α) (precisions : List (List Char))
    (P : α → Prop) : Prop :=
  match precisions.find? refuses with
  | some letters => x = .error (.refused (.ofList letters))
  | none => ∃ a, x = .ok a ∧ P a

namespace Settles

variable {α β : Type} {x : Except BuildError α} {precisions others : List (List Char)}
  {P Q : α → Prop} {S : β → Prop}

theorem ok {a : α} (hx : x = .ok a) (ha : P a) : Settles x [] P := ⟨a, hx, ha⟩

theorem mono (h : Settles x precisions P) (himp : ∀ a, P a → Q a) : Settles x precisions Q := by
  unfold Settles at *
  split
  · next hfind =>
      rw [hfind] at h
      exact h
  · next hfind =>
      rw [hfind] at h
      obtain ⟨a, hx, ha⟩ := h
      exact ⟨a, hx, himp a ha⟩

/-- What is refused in the first part is refused in the whole. -/
theorem bind {f : α → Except BuildError β} (h : Settles x precisions P)
    (hf : ∀ a, P a → Settles (f a) others S) : Settles (x >>= f) (precisions ++ others) S := by
  unfold Settles at h ⊢
  rw [List.find?_append]
  cases hfind : precisions.find? refuses with
  | some letters =>
      rw [hfind] at h
      rw [h]
      rfl
  | none =>
      rw [hfind] at h
      obtain ⟨a, hx, ha⟩ := h
      rw [hx, Option.none_or]
      exact hf a ha

theorem map {g : α → β} (h : Settles x precisions P) (hg : ∀ a, P a → S (g a)) :
    Settles (x.map g) precisions S := by
  have hbind := h.bind (f := fun a => .ok (g a)) fun a ha => .ok rfl (hg a ha)
  rw [List.append_nil] at hbind
  cases x <;> exact hbind

end Settles

/-! ## Nodes without precisions -/

namespace Form

/-- No declaration occurs in the form. -/
@[simp] def Plain : Form → Prop
  | nothing => True
  | finish => True
  | symbol _ => True
  | word _ => True
  | longest _ => True
  | rule name => name ∉ [Rule.file, .feature, .declaration, .preciseType, .precision]
  | sequence first second => first.Plain ∧ second.Plain
  | choice first second => first.Plain ∧ second.Plain
  | repeated form => form.Plain
  | optionally form => form.Plain

end Form

theorem Rule.plain {name : Rule} (h : (Form.rule name).Plain) : name.form.Plain := by
  cases name with
  | file | feature | declaration | preciseType | precision => exact absurd h (by simp)
  | _ => simp [Rule.form, Form.inOrder, Form.oneOf, Form.guard, Form.block, Form.condition]

/-- There is no precision where no declaration is. -/
theorem Parses.precisions_eq_nil {form : Form} {text rest : List Char} {nodes : List Node}
    (h : Parses form text rest nodes) (hform : form.Plain) : precisions nodes = [] := by
  induction h with
  | nothing _ | finish | symbol _ _ | word _ _ | longest _ | stop _ | absent _ =>
      exact precisions_nil
  | @rule name letters rest inner _ ih =>
      have hname : name ≠ .precision := by
        rintro rfl
        exact absurd hform (by simp)
      rw [precisions_singleton hname, ih (Rule.plain hform)]
  | sequence _ _ _ ihfirst ihsecond =>
      rw [precisions_append, ihfirst hform.1, ihsecond hform.2, List.append_nil]
  | left _ ih => exact ih hform.1
  | right _ ih => exact ih hform.2
  | more _ _ _ ihfirst ihrest =>
      rw [precisions_append, ihfirst hform, ihrest hform, List.append_nil]
  | present _ ih => exact ih hform

/-! ## The nodes of tokens -/

namespace Form.Gives

variable {bound : Nat}

theorem named (name : Rule) : (Form.rule name).Gives bound (One fun node => node.rule = name) := by
  intro text rest nodes _ hparses
  cases hparses with
  | rule hinner => exact ⟨_, rfl, rfl⟩

/-- A token shows what is read from it. -/
theorem token {α : Type} {name : Rule} {read : List Char → Option (α × List Char)}
    {R : α → Node → Prop} (h : Reads read name.form)
    (hshows : ∀ letters inner rest a, read (letters ++ rest) = some (a, rest) →
      R a ⟨name, letters, inner⟩) :
    (Form.rule name).Gives bound (One fun node => ∃ a, R a node) := by
  intro text rest nodes _ hparses
  cases hparses with
  | @rule _ letters _ inner hinner =>
      obtain ⟨a, ha⟩ := (h _ rest).mpr hinner.derives
      exact ⟨_, rfl, a, hshows letters inner rest a ha⟩

/-- No node within a form without declarations is a precision. -/
theorem plain {form : Form} {P : List Node → Prop} (h : form.Gives bound P) (hform : form.Plain) :
    form.Gives bound fun nodes => P nodes ∧ precisions nodes = [] :=
  fun text rest nodes hbound hparses =>
    ⟨h text rest nodes hbound hparses, hparses.precisions_eq_nil hform⟩

end Form.Gives

theorem isName_of_readName? {text rest : List Char} {name : String}
    (h : readName? text = some (name, rest)) : IsName name.toList := by
  cases text with
  | nil => cases h
  | cons c tail =>
      rw [readName?] at h
      split at h
      · next hc =>
          cases h
          rw [String.toList_ofList]
          exact ⟨c, _, rfl, hc, fun _ hd => List.mem_takeWhile_imp hd⟩
      · cases h

open Form.Gives

variable {bound : Nat}

theorem variableName_gives : (Form.rule .variableName).Gives bound
    (One fun node => ∃ name, ShowsName name node ∧ IsName name.toList) :=
  token variableName_reads fun _ _ _ _ h => ⟨showsName h, isName_of_readName? h⟩

theorem truthValue_gives :
    (Form.rule .truthValue).Gives bound (One fun node => ∃ value, ShowsTruth value node) :=
  token truthValue_reads fun _ _ _ _ h => showsTruth h

theorem equality_gives :
    (Form.rule .equality).Gives bound (One fun node => ∃ equality, ShowsEquality equality node) :=
  token equality_reads fun _ _ _ _ h => showsEquality h

theorem comparison_gives : (Form.rule .comparison).Gives bound
    (One fun node => ∃ comparison, ShowsComparison comparison node) :=
  token comparison_reads fun _ _ _ _ h => showsComparison h

theorem number_gives : (Form.rule .number).Gives bound
    (One fun node => ∃ constant, ShowsNumber constant node ∧ constant ≠ .nan) :=
  token number_reads fun _ _ _ _ h => ⟨showsNumber h, readNumber?_ne_nan h⟩

/-! ## Conditions -/

theorem interval_gives : (Form.rule .interval).Gives bound (One fun node =>
    ∃ found, ShowsInterval found node ∧ found.1.lo ≠ .nan ∧ found.1.hi ≠ .nan) := by
  have hlower : (Form.rule .lowerBracket).Gives bound
      (One fun node => ∃ loOpen, ShowsLower loOpen node) :=
    token (bracket_reads (by decide) true false) fun _ _ _ _ h => showsLower h
  have hupper : (Form.rule .upperBracket).Gives bound
      (One fun node => ∃ hiOpen, ShowsUpper hiOpen node) :=
    token (bracket_reads (by decide) true false) fun _ _ _ _ h => showsUpper h
  refine (rule (hlower.cons (number_gives.cons
    (after_symbol _ (number_gives.cons hupper))))).mono ?_
  rintro _ ⟨_, rfl, letters, _, rfl, lower, _, rfl, ⟨loOpen, hlower⟩, lo, _, rfl, ⟨a, hlo, ha⟩,
    hi, _, rfl, ⟨b, hhi, hb⟩, upper, rfl, hiOpen, hupper⟩
  exact ⟨_, rfl, _, showsInterval hlower hlo hhi hupper, ha, hb⟩

theorem condition_gives : Form.condition.Gives bound
    (One fun node => ∃ condition, ShowsCondition condition node ∧ condition.WellFormed) := by
  refine choice ?_ (choice ?_ (choice ?_ (choice ?_ ?_)))
  · refine (rule (truthValue_gives.cons (equality_gives.cons variableName_gives))).mono ?_
    rintro _ ⟨_, rfl, letters, _, rfl, _, _, rfl, ⟨_, hvalue⟩, _, _, rfl, ⟨_, hoperator⟩, _, rfl,
      _, hname, hisName⟩
    exact ⟨_, rfl, _, .truthFirst hvalue hoperator hname, hisName, trivial⟩
  · refine (rule (variableName_gives.cons (equality_gives.cons truthValue_gives))).mono ?_
    rintro _ ⟨_, rfl, letters, _, rfl, _, _, rfl, ⟨_, hname, hisName⟩, _, _, rfl, ⟨_, hoperator⟩,
      _, rfl, _, hvalue⟩
    exact ⟨_, rfl, _, .truthLast hname hoperator hvalue, hisName, trivial⟩
  · refine (rule (number_gives.cons (comparison_gives.cons variableName_gives))).mono ?_
    rintro _ ⟨_, rfl, letters, _, rfl, _, _, rfl, ⟨_, hnumber, hconstant⟩, _, _, rfl,
      ⟨_, hoperator⟩, _, rfl, _, hname, hisName⟩
    exact ⟨_, rfl, _, .numberFirst hnumber hoperator hname, hisName, hconstant⟩
  · refine (rule (variableName_gives.cons (comparison_gives.cons number_gives))).mono ?_
    rintro _ ⟨_, rfl, letters, _, rfl, _, _, rfl, ⟨_, hname, hisName⟩, _, _, rfl, ⟨_, hoperator⟩,
      _, rfl, _, hnumber, hconstant⟩
    exact ⟨_, rfl, _, .numberLast hname hoperator hnumber, hisName, hconstant⟩
  · refine (rule (variableName_gives.cons ((named .inWord).cons interval_gives))).mono ?_
    rintro _ ⟨_, rfl, letters, _, rfl, _, _, rfl, ⟨_, hname, hisName⟩, _, _, rfl, hin, _, rfl,
      ⟨bounds, openness⟩, hinterval, hbounds⟩
    exact ⟨_, rfl, _, .membership hname hin hinterval, hisName, hbounds⟩

/-- Nodes that all show something show a list of values. -/
theorem exists_forall₂_shown {α : Type} {R : α → Node → Prop} {P : α → Prop} {nodes : List Node}
    (h : ∀ node ∈ nodes, ∃ a, R a node ∧ P a) :
    ∃ found, List.Forall₂ R found nodes ∧ ∀ a ∈ found, P a := by
  induction nodes with
  | nil => exact ⟨[], .nil, List.forall_mem_nil P⟩
  | cons node rest ih =>
      rw [List.forall_mem_cons] at h
      obtain ⟨⟨a, hnode, ha⟩, hrest⟩ := h
      obtain ⟨found, hshown, hfound⟩ := ih hrest
      exact ⟨a :: found, .cons hnode hshown, List.forall_mem_cons.mpr ⟨ha, hfound⟩⟩

theorem exists_option_shown {α : Type} {R : α → Node → Prop} {P : α → Prop} {nodes : List Node}
    (h : AtMostOne (fun node => ∃ a, R a node ∧ P a) nodes) :
    ∃ found, ShowsOption R found nodes ∧ ∀ a ∈ found, P a := by
  rcases h with hnil | ⟨node, hnodes, a, hnode, ha⟩
  · exact ⟨none, hnil, nofun⟩
  · refine ⟨some a, ⟨node, hnodes, hnode⟩, ?_⟩
    rintro _ ⟨⟩
    exact ha

theorem conditions_gives : (Form.rule .conditions).Gives bound
    (One fun node => ∃ found, ShowsConditions found node ∧ GuardWellFormed found) := by
  refine (rule (condition_gives.cons (repeated (after_symbol _ condition_gives)))).mono ?_
  rintro _ ⟨_, rfl, letters, _, rfl, node, nodes, rfl, ⟨first, hfirst, hwell⟩, hothers⟩
  obtain ⟨others, hshown, hwells⟩ := exists_forall₂_shown hothers
  exact ⟨_, rfl, _, showsConditions (.cons hfirst hshown) (List.cons_ne_nil first others),
    List.cons_ne_nil first others, List.forall_mem_cons.mpr ⟨hwell, hwells⟩⟩

theorem guard_gives : Form.guard.Gives bound
    (One fun node => ∃ found, ShowsConditions found node ∧ GuardWellFormed found) :=
  after_symbol _ (before_symbol _ conditions_gives)

/-! ## Decisions -/

section

variable (h : (Form.rule .decision).Gives bound
  (One fun node => ∃ decision, ShowsDecision decision node ∧ decision.WellFormed))

include h

theorem block_gives : Form.block.Gives bound fun nodes =>
    ∃ found, List.Forall₂ ShowsDecision found nodes ∧ ∀ decision ∈ found, decision.WellFormed :=
  (after_symbol _ (before_symbol _ (repeated h))).mono fun _ => exists_forall₂_shown

theorem body_gives : (Form.rule .body).Gives bound
    (One fun node => ∃ found, ShowsBody found node ∧
      ∀ decision ∈ found, decision.WellFormed) := by
  refine (rule (block_gives h)).mono ?_
  rintro _ ⟨_, rfl, letters, nodes, rfl, found, hshown, hwell⟩
  exact ⟨_, rfl, found, showsBody hshown, hwell⟩

theorem closing_gives : (Form.rule .closing).Gives bound
    (One fun node => ∃ found, ShowsClosing found node ∧
      ∀ decision ∈ found, decision.WellFormed) := by
  refine (rule ((named .elseWord).cons (block_gives h))).mono ?_
  rintro _ ⟨_, rfl, letters, _, rfl, word, nodes, rfl, hword, found, hshown, hwell⟩
  exact ⟨_, rfl, found, showsClosing hword hshown, hwell⟩

theorem alternative_gives : (Form.rule .alternative).Gives bound
    (One fun node => ∃ alternative, ShowsElseIf alternative node ∧
      GuardWellFormed alternative.conditions ∧
        ∀ decisions ∈ alternative.body, ∀ decision ∈ decisions, decision.WellFormed) := by
  refine (rule ((named .elseWord).cons ((named .ifWord).cons
    (guard_gives.cons (optionally (body_gives h)))))).mono ?_
  rintro _ ⟨_, rfl, letters, _, rfl, elseNode, _, rfl, helse, ifNode, _, rfl, hif, guard, nodes,
    rfl, ⟨conditions, hguard, hconditions⟩, hbody⟩
  obtain ⟨body, hshown, hwell⟩ := exists_option_shown hbody
  exact ⟨_, rfl, ⟨conditions, body⟩, showsElseIf helse hif hguard hshown, hconditions, hwell⟩

end

/-- Whatever a decision is derived as, it is built from its nodes. -/
theorem decision_gives (bound : Nat) : (Form.rule .decision).Gives bound
    (One fun node => ∃ decision, ShowsDecision decision node ∧ decision.WellFormed) := by
  induction bound with
  | zero => exact rule_zero .decision
  | succ bound ih =>
      refine (rule_succ ((named .ifWord).cons (guard_gives.cons
        ((optionally (body_gives ih)).sequence ((repeated (alternative_gives ih)).sequence
          (optionally (closing_gives ih))))))).mono ?_
      rintro _ ⟨_, rfl, letters, _, rfl, word, _, rfl, hword, guard, _, rfl,
        ⟨conditions, hguard, hconditions⟩, body, _, rfl, hbody, elseIfs, closing, rfl, helseIfs,
        hclosing⟩
      obtain ⟨below, hshown, hbelow⟩ := exists_option_shown hbody
      obtain ⟨alternatives, hshown', halternatives⟩ := exists_forall₂_shown helseIfs
      obtain ⟨otherwise, hshown'', hotherwise⟩ := exists_option_shown hclosing
      refine ⟨_, rfl, ⟨conditions, below, alternatives, otherwise⟩,
        showsDecision hword hguard hshown hshown' hshown'', ?_⟩
      exact .mk hconditions hbelow (fun alternative hmem => (halternatives alternative hmem).1)
        (fun alternative hmem => (halternatives alternative hmem).2) hotherwise

/-! ## Declarations -/

/-- A precision is built or refused. -/
theorem precision_gives : (Form.rule .precision).Gives bound (One fun node =>
    Settles node.buildPrecision (precisions [node]) (Number.zero < ·)) := by
  intro text rest nodes _ hparses
  cases hparses with
  | @rule _ letters _ inner hinner =>
      refine ⟨_, rfl, ?_⟩
      obtain ⟨numeral, hread⟩ := (precision_reads _ rest).mpr hinner.derives
      obtain ⟨hvalid, htext⟩ := Numeral.text_of_read? hread
      obtain rfl := List.append_cancel_right htext
      cases hinner
      rw [precisions_precision, hvalid.buildPrecision]
      have hrefuses : refuses numeral.spelling.toList =
          !decide (Number.zero < numeral.value false) := by
        have hvalue : Number.ofText? numeral.spelling.toList = some (numeral.value false) :=
          hvalid.ofText? false
        rw [refuses, hvalue, Option.any_some]
      unfold Settles
      rw [List.find?_singleton, hrefuses]
      by_cases hpositive : Number.zero < numeral.value false
      · rw [decide_eq_true hpositive]
        exact ⟨_, if_pos hpositive, hpositive⟩
      · rw [decide_eq_false hpositive]
        change _ = Except.error (BuildError.refused (.ofList numeral.spelling.toList))
        rw [if_neg hpositive, String.ofList_toList]

theorem typeExpr_gives : (Form.oneOf [.rule .boolType, .rule .intType, .rule .preciseType,
    .rule .numType]).Gives bound (One fun node => ∃ type, ShowsType type node ∧
      Settles type (precisions [node]) fun type =>
        ∀ precision ∈ type.precision?, Number.zero < precision) := by
  -- The types without a precision of their own.
  have hplain {name : Rule} {type : ValueType} (hname : (Form.rule name).Plain)
      (hshows : ∀ letters inner, ShowsType (.ok type) ⟨name, letters, inner⟩)
      (htype : ∀ precision ∈ type.precision?, Number.zero < precision) :
      (Form.rule name).Gives bound (One fun node => ∃ type, ShowsType type node ∧
        Settles type (precisions [node]) fun type =>
          ∀ precision ∈ type.precision?, Number.zero < precision) := by
    refine (plain (named name) hname).mono ?_
    rintro _ ⟨⟨⟨_, letters, inner⟩, rfl, rfl⟩, hnone⟩
    exact ⟨_, rfl, _, hshows letters inner, by rw [hnone]; exact .ok rfl htype⟩
  refine choice (hplain (by simp) (fun _ _ => .bool) nofun) (choice (hplain (by simp)
    (fun _ _ => .int) ?_) (choice ?_ (hplain (by simp) (fun _ _ => .num) ?_)))
  · rintro _ ⟨⟩
    decide +kernel
  · refine (rule (after_symbol _ (after_symbol _ (before_symbol _ precision_gives)))).mono ?_
    rintro _ ⟨_, rfl, letters, _, rfl, literal, rfl, hliteral⟩
    refine ⟨_, rfl, _, .precise literal, ?_⟩
    rw [precisions_singleton (by decide)]
    refine hliteral.map fun precision hprecision => ?_
    rintro _ ⟨⟩
    exact hprecision
  · rintro _ ⟨⟩
    decide +kernel

theorem declaration_gives : (Form.rule .declaration).Gives bound (One fun node =>
    node.rule = .declaration ∧
      Settles node.buildVariable (precisions [node]) Variable.WellFormed) := by
  refine (rule ((plain (named .varWord) (by simp)).sequence ((plain variableName_gives
    (by simp)).sequence (after_symbol _ typeExpr_gives)))).mono ?_
  rintro _ ⟨_, rfl, letters, _, rfl, _, _, rfl, ⟨⟨word, rfl, hword⟩, hnone⟩, _, _, rfl,
    ⟨⟨name, rfl, spelling, hname, hisName⟩, hnone'⟩, written, rfl, type, htype, hsettles⟩
  refine ⟨_, rfl, rfl, ?_⟩
  rw [precisions_singleton (by decide), precisions_append, hnone, precisions_append, hnone']
  rw [List.singleton_append, List.singleton_append, buildVariable_eq hword hname htype]
  exact hsettles.map fun type hpositive => ⟨hisName, hpositive⟩

/-! ## Features -/

/-- The node of a statement, which is built or has a precision that is refused. -/
inductive StatementNode (node : Node) : Prop
  | declaration (hrule : node.rule = .declaration)
      (h : Settles node.buildVariable (precisions [node]) Variable.WellFormed)
  | decision (hrule : node.rule = .decision)
      (h : Settles node.buildDecision (precisions [node]) Decision.WellFormed)
  | feature (hrule : node.rule = .feature)
      (h : Settles node.buildFeature (precisions [node]) Feature.WellFormed)

theorem item_gives (h : (Form.rule .feature).Gives bound (One fun node =>
    node.rule = .feature ∧ Settles node.buildFeature (precisions [node]) Feature.WellFormed)) :
    Form.item.Gives bound (One StatementNode) := by
  refine choice (declaration_gives.mono ?_) (choice ((plain (decision_gives bound)
    (by simp)).mono ?_) (h.mono ?_))
  · rintro _ ⟨node, rfl, hrule, hsettles⟩
    exact ⟨node, rfl, .declaration hrule hsettles⟩
  · rintro _ ⟨⟨node, rfl, decision, ⟨hrule, hbuild⟩, hwell⟩, hnone⟩
    refine ⟨node, rfl, .decision hrule ?_⟩
    rw [hnone]
    exact .ok hbuild hwell
  · rintro _ ⟨node, rfl, hrule, hsettles⟩
    exact ⟨node, rfl, .feature hrule hsettles⟩

namespace Feature

/-- The statements of the feature are well formed, but there may be none. -/
structure PartsWellFormed (feature : Feature) : Prop where
  declarations : ∀ declared ∈ feature.declarations, declared.WellFormed
  decisions : ∀ decision ∈ feature.decisions, decision.WellFormed
  features : ∀ nested ∈ feature.features, nested.WellFormed

/-- The feature has a statement. -/
def HasStatement (feature : Feature) : Prop :=
  feature.declarations ≠ [] ∨ feature.decisions ≠ [] ∨ feature.features ≠ []

theorem PartsWellFormed.wellFormed {feature : Feature} (h : feature.PartsWellFormed)
    (hstatement : feature.HasStatement) : feature.WellFormed := by
  cases feature
  exact .mk hstatement h.declarations h.decisions h.features

end Feature

/-- Adding statements keeps what is well formed, and leaves no feature empty. -/
theorem settles_addToFeature {nodes : List Node} (h : ∀ node ∈ nodes, StatementNode node)
    {feature : Feature} (hparts : feature.PartsWellFormed) :
    Settles (addToFeature feature nodes) (precisions nodes) fun whole =>
      whole.PartsWellFormed ∧ (feature.HasStatement ∨ nodes ≠ [] → whole.HasStatement) := by
  induction nodes generalizing feature with
  | nil =>
      rw [addToFeature, precisions_nil]
      exact .ok rfl ⟨hparts, fun hstatement => hstatement.resolve_right (· rfl)⟩
  | cons node rest ih =>
      rw [List.forall_mem_cons] at h
      -- Behind the first statement the feature is not empty any more.
      have hrest {added : Feature} (hadded : added.PartsWellFormed)
          (hstatement : added.HasStatement) :
          Settles (addToFeature added rest) (precisions rest) fun whole =>
            whole.PartsWellFormed ∧
              (feature.HasStatement ∨ node :: rest ≠ [] → whole.HasStatement) :=
        (ih h.2 hadded).mono fun whole hwhole => ⟨hwhole.1, fun _ => hwhole.2 (.inl hstatement)⟩
      rw [addToFeature, precisions_cons]
      cases h.1 with
      | declaration hrule hsettles =>
          rw [hrule]
          refine hsettles.bind fun declared hdeclared => hrest ⟨?_, hparts.2, hparts.3⟩ ?_
          · exact List.forall_mem_append.mpr ⟨hparts.1, List.forall_mem_singleton.mpr hdeclared⟩
          · exact .inl (List.append_ne_nil_of_right_ne_nil _ (List.cons_ne_nil declared []))
      | decision hrule hsettles =>
          rw [hrule]
          refine hsettles.bind fun decision hdecision => hrest ⟨hparts.1, ?_, hparts.3⟩ ?_
          · exact List.forall_mem_append.mpr ⟨hparts.2, List.forall_mem_singleton.mpr hdecision⟩
          · exact .inr (.inl (List.append_ne_nil_of_right_ne_nil _ (List.cons_ne_nil decision [])))
      | feature hrule hsettles =>
          rw [hrule]
          refine hsettles.bind fun nested hnested => hrest ⟨hparts.1, hparts.2, ?_⟩ ?_
          · exact List.forall_mem_append.mpr ⟨hparts.3, List.forall_mem_singleton.mpr hnested⟩
          · exact .inr (.inr (List.append_ne_nil_of_right_ne_nil _ (List.cons_ne_nil nested [])))

theorem feature_gives (bound : Nat) : (Form.rule .feature).Gives bound (One fun node =>
    node.rule = .feature ∧ Settles node.buildFeature (precisions [node]) Feature.WellFormed) := by
  induction bound with
  | zero => exact rule_zero .feature
  | succ bound ih =>
      refine (rule_succ (after_symbol _ (before_symbol _ ((item_gives ih).cons
        (repeated (item_gives ih)))))).mono ?_
      rintro _ ⟨_, rfl, letters, _, rfl, node, rest, rfl, hfirst, hrest⟩
      have hempty : Feature.empty.PartsWellFormed := ⟨nofun, nofun, nofun⟩
      have hsettles := settles_addToFeature (List.forall_mem_cons.mpr ⟨hfirst, hrest⟩) hempty
      refine ⟨_, rfl, rfl, ?_⟩
      rw [precisions_singleton (by decide), buildFeature]
      exact hsettles.mono fun whole hwhole =>
        hwhole.1.wellFormed (hwhole.2 (.inr (List.cons_ne_nil node rest)))

/-- **Every syntax tree leads to a feature or to a precision.**  The first precision of the
source that is not greater than zero is refused, and if there is none, a well-formed feature is
built. -/
theorem settles_buildSource {source : List Char} {file : Node} (h : SyntaxTree source file) :
    Settles (buildSource [file]) (precisions [file]) Feature.WellFormed := by
  have hend : (Form.rule .endOfInput).Gives (allOf [file]).length fun nodes =>
      One (fun node => node.rule = .endOfInput) nodes ∧ precisions nodes = [] :=
    plain (named .endOfInput) (by simp)
  have hfile : (Form.rule .file).Gives (allOf [file]).length _ :=
    rule (nothing.sequence ((feature_gives (allOf [file]).length).sequence hend))
  obtain ⟨_, heq, letters, _, rfl, _, _, rfl, rfl, _, _, rfl, ⟨feature, rfl, hrule, hsettles⟩,
    ⟨finish, rfl, -⟩, hnone⟩ := hfile source [] [file] le_rfl h
  cases heq
  rw [precisions_singleton (by decide), List.nil_append, precisions_append, hnone, List.append_nil]
  exact (buildSource_eq hrule).symm ▸ hsettles

end DecisionTuples
