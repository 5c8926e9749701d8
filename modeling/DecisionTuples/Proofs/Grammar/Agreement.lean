import DecisionTuples.Proofs.Grammar.Language
import DecisionTuples.Proofs.Grammar.Literal

/-!
# What is read is what is built

`Parser.Builds` says of a parser that whatever it reads has nodes, and that they show the value
it gives.  There is one rule for each combinator.  The statements of a feature are read first
and turned into values afterwards, whereas the builders do both at once; the result is the same,
and so is the first error (`addToFeature_eq`).

So a source that is read has a syntax tree from which the same is built
(`Parser.source_builds`).
-/

namespace DecisionTuples

open Node

namespace Parser

variable {α β : Type} {p q : Parser α} {form first second : Form}

/-- What the parser reads has nodes that are related to the value. -/
def Builds (p : Parser α) (form : Form) (R : α → List Node → Prop) : Prop :=
  ∀ text a rest, p.run (skipGap text) = some (a, rest) →
    ∃ last nodes, Parses form (skipGap text) last nodes ∧ rest = skipGap last ∧ R a nodes

namespace Builds

variable {R R' : α → List Node → Prop} {S : α → Node → Prop} {T : α → β → List Node → Prop}

theorem mono (h : p.Builds form R) (himp : ∀ a nodes, R a nodes → R' a nodes) :
    p.Builds form R' := by
  intro text a rest hrun
  obtain ⟨last, nodes, hparses, hrest, hnodes⟩ := h text a rest hrun
  exact ⟨last, nodes, hparses, hrest, himp a nodes hnodes⟩

theorem fail : (Parser.fail : Parser α).Builds form R := nofun

theorem rule {name : Rule} (h : p.Builds name.form R) :
    (Parser.rule name p).Builds (.rule name) fun a =>
      One fun node => ∃ letters inner, node = ⟨name, letters, inner⟩ ∧ R a inner := by
  intro text a rest hrun
  obtain ⟨last, nodes, hparses, hrest, hnodes⟩ := h text a rest hrun
  obtain ⟨letters, -, hrule⟩ := hparses.exists_rule
  exact ⟨last, _, hrule, hrest, _, rfl, letters, nodes, rfl, hnodes⟩

/-- A token shows what is read from it. -/
theorem token {name : Rule} {read : List Char → Option (α × List Char)}
    (h : Reads read name.form)
    (hshows : ∀ letters inner rest a, read (letters ++ rest) = some (a, rest) →
      S a ⟨name, letters, inner⟩) :
    (Parser.rule name (lexeme read)).Builds (.rule name) fun a => One (S a) := by
  intro text a rest hrun
  obtain ⟨⟨a', last⟩, hread, heq⟩ := Option.map_eq_some_iff.mp hrun
  cases heq
  obtain ⟨inner, hparses⟩ := exists_parses_iff.mpr ((h _ last).mp ⟨a, hread⟩)
  obtain ⟨letters, htext, hrule⟩ := hparses.exists_rule
  rw [htext] at hread
  exact ⟨last, _, hrule, rfl, _, rfl, hshows letters inner last a hread⟩

theorem literal (letters : List Char) :
    (Parser.literal letters).Builds (.symbol letters) fun _ nodes => nodes = [] := by
  intro text a rest hrun
  obtain ⟨last, hlast, hrest⟩ := literal_sound letters text a rest hrun
  have hparses : Parses (.symbol letters) (skipGap text) last [] := by
    rw [derives_symbol_iff.mp hlast]
    exact .symbol letters last
  exact ⟨last, [], hparses, hrest, rfl⟩

/-- One parser and then another, whose nodes are those of both. -/
theorem bind {f : α → Parser β} (hp : p.Builds first R) (hf : ∀ a, (f a).Builds second (T a)) :
    (p >>= f).Builds (.sequence first second) fun b nodes =>
      ∃ a front back, nodes = front ++ back ∧ R a front ∧ T a b back := by
  intro text b rest hrun
  rw [run_bind] at hrun
  obtain ⟨⟨a, between⟩, ha, hb⟩ := Option.bind_eq_some_iff.mp hrun
  obtain ⟨middle, front, hfirst, rfl, hfront⟩ := hp text a between ha
  obtain ⟨last, back, hsecond, hrest, hback⟩ := hf a middle b rest hb
  exact ⟨last, front ++ back, .sequence hfirst (gap_skipGap middle) hsecond, hrest,
    a, front, back, rfl, hfront, hback⟩

/-- A parser of one node, and then another parser. -/
theorem cons {f : α → Parser β} (hp : p.Builds first fun a => One (S a))
    (hf : ∀ a, (f a).Builds second (T a)) :
    (p >>= f).Builds (.sequence first second) fun b nodes =>
      ∃ a node others, nodes = node :: others ∧ S a node ∧ T a b others :=
  (hp.bind hf).mono fun _ _ ⟨a, _, others, hnodes, ⟨node, hfront, hnode⟩, hothers⟩ =>
    ⟨a, node, others, by rw [hnodes, hfront, List.singleton_append], hnode, hothers⟩

/-- Fixed characters in front give no nodes. -/
theorem after_literal (letters : List Char) {f : Unit → Parser β}
    {U : β → List Node → Prop} (hf : (f ()).Builds form U) :
    (Parser.literal letters >>= f).Builds (.sequence (.symbol letters) form) U :=
  ((literal letters).bind fun _ => hf).mono fun _ _ ⟨_, _, _, hnodes, hfront, hback⟩ => by
    rwa [hnodes, hfront, List.nil_append]

theorem map (hp : p.Builds form R) (g : α → β) :
    (p >>= fun a => pure (g a)).Builds form fun b nodes => ∃ a, R a nodes ∧ b = g a := by
  intro text b rest hrun
  rw [run_bind] at hrun
  obtain ⟨⟨a, between⟩, ha, hb⟩ := Option.bind_eq_some_iff.mp hrun
  cases hb
  obtain ⟨last, nodes, hparses, hrest, hnodes⟩ := hp text a _ ha
  exact ⟨last, nodes, hparses, hrest, a, hnodes, rfl⟩

/-- Fixed characters behind give no nodes. -/
theorem before_literal (letters : List Char) (hp : p.Builds form R) (g : α → β) :
    (p >>= fun a => Parser.literal letters >>= fun _ => pure (g a)).Builds
      (.sequence form (.symbol letters)) fun b nodes => ∃ a, R a nodes ∧ b = g a :=
  (hp.bind fun a => (literal letters).map fun _ => g a).mono
    fun _ _ ⟨a, _, _, hnodes, hfront, _, hback, hb⟩ => by
      rw [hnodes, hback, List.append_nil]
      exact ⟨a, hfront, hb⟩

theorem orElse (hp : p.Builds first R) (hq : q.Builds second R) :
    (Parser.orElse p q).Builds (.choice first second) R := by
  intro text a rest hrun
  rw [run_orElse, Option.or_eq_some_iff] at hrun
  rcases hrun with hfirst | ⟨-, hsecond⟩
  · obtain ⟨last, nodes, hparses, hrest⟩ := hp text a rest hfirst
    exact ⟨last, nodes, .left hparses, hrest⟩
  · obtain ⟨last, nodes, hparses, hrest⟩ := hq text a rest hsecond
    exact ⟨last, nodes, .right hparses, hrest⟩

theorem optional (hp : p.Builds form fun a => One (S a)) :
    (Parser.optional p).Builds (.optionally form) (ShowsOption S) := by
  intro text found rest hrun
  unfold Parser.optional at hrun
  dsimp only at hrun
  split at hrun
  · next a _ ha =>
      cases hrun
      obtain ⟨last, nodes, hparses, hrest, hnodes⟩ := hp text a rest ha
      exact ⟨last, nodes, .present hparses, hrest, hnodes⟩
  · cases hrun
    exact ⟨skipGap text, [], .absent _, (skipGap_skipGap text).symm, rfl⟩

theorem runMany (hp : p.Builds form fun a => One (S a)) (bound : Nat) (text : List Char) :
    ∃ last nodes, Parses (.repeated form) (skipGap text) last nodes ∧
      (Parser.runMany p bound (skipGap text)).2 = skipGap last ∧
        List.Forall₂ S (Parser.runMany p bound (skipGap text)).1 nodes := by
  induction bound generalizing text with
  | zero => exact ⟨skipGap text, [], .stop _, (skipGap_skipGap text).symm, .nil⟩
  | succ bound ih =>
      rw [Parser.runMany]
      split
      · exact ⟨skipGap text, [], .stop _, (skipGap_skipGap text).symm, .nil⟩
      · next a rest ha =>
          obtain ⟨middle, _, hfirst, rfl, node, rfl, hnode⟩ := hp text a rest ha
          obtain ⟨last, nodes, hrepeated, hrest, hnodes⟩ := ih middle
          exact ⟨last, [node] ++ nodes, .more hfirst (gap_skipGap middle) hrepeated, hrest,
            .cons hnode hnodes⟩

theorem many (hp : p.Builds form fun a => One (S a)) :
    (Parser.many p).Builds (.repeated form) (List.Forall₂ S) := by
  intro text as rest hrun
  obtain ⟨last, nodes, hparses, hrest, hnodes⟩ := hp.runMany ((skipGap text).length + 1) text
  have heq := Option.some_inj.mp hrun
  rw [heq] at hrest hnodes
  exact ⟨last, nodes, hparses, hrest, hnodes⟩

theorem many1 (hp : p.Builds form fun a => One (S a)) :
    (Parser.many1 p).Builds (.repeated1 form) (List.Forall₂ S) :=
  (hp.cons fun a => hp.many.map (a :: ·)).mono
    fun _ _ ⟨_, _, _, hnodes, hfirst, _, hothers, has⟩ => by
      rw [hnodes, has]
      exact .cons hfirst hothers

end Builds

/-! ## Tokens -/

theorem ifWord_builds :
    ifWord.Builds (.rule .ifWord) fun _ => One fun node => node.rule = .ifWord :=
  .token (word_reads _) fun _ _ _ _ _ => rfl

theorem elseWord_builds :
    elseWord.Builds (.rule .elseWord) fun _ => One fun node => node.rule = .elseWord :=
  .token (word_reads _) fun _ _ _ _ _ => rfl

theorem truthValue_builds : truthValue.Builds (.rule .truthValue) fun value =>
    One (ShowsTruth value) :=
  .token truthValue_reads fun _ _ _ _ => showsTruth

theorem equality_builds : equality.Builds (.rule .equality) fun found =>
    One (ShowsEquality found) :=
  .token equality_reads fun _ _ _ _ => showsEquality

theorem comparison_builds : comparison.Builds (.rule .comparison) fun found =>
    One (ShowsComparison found) :=
  .token comparison_reads fun _ _ _ _ => showsComparison

theorem variableName_builds : variableName.Builds (.rule .variableName) fun name =>
    One (ShowsName name) :=
  .token variableName_reads fun _ _ _ _ => showsName

theorem number_builds : number.Builds (.rule .number) fun constant => One (ShowsNumber constant) :=
  .token number_reads fun _ _ _ _ => showsNumber

/-! ## Conditions -/

theorem interval_builds : interval.Builds (.rule .interval) fun found =>
    One (ShowsInterval found) := by
  have hlower : lowerBracket.Builds (.rule .lowerBracket) fun loOpen => One (ShowsLower loOpen) :=
    .token (bracket_reads (by decide) true false) fun _ _ _ _ => showsLower
  have hupper : upperBracket.Builds (.rule .upperBracket) fun hiOpen => One (ShowsUpper hiOpen) :=
    .token (bracket_reads (by decide) true false) fun _ _ _ _ => showsUpper
  refine (Builds.rule (hlower.cons fun _ => number_builds.cons fun _ => .after_literal _
    (number_builds.cons fun _ => hupper.map _))).mono ?_
  rintro _ _ ⟨_, rfl, letters, _, rfl, _, lower, _, rfl, hlower, _, lo, _, rfl, hlo, _, hi, _, rfl,
    hhi, _, ⟨upper, rfl, hupper⟩, rfl⟩
  exact ⟨_, rfl, showsInterval hlower hlo hhi hupper⟩

theorem condition_builds : condition.Builds .condition fun found =>
    One (ShowsCondition found) := by
  refine .orElse ?_ (.orElse ?_ (.orElse ?_ (.orElse ?_ ?_)))
  · refine (Builds.rule (truthValue_builds.cons fun _ => equality_builds.cons fun _ =>
      variableName_builds.map _)).mono ?_
    rintro _ _ ⟨_, rfl, letters, _, rfl, _, _, _, rfl, hvalue, _, _, _, rfl, hoperator, _,
      ⟨_, rfl, hname⟩, rfl⟩
    exact ⟨_, rfl, .truthFirst hvalue hoperator hname⟩
  · refine (Builds.rule (variableName_builds.cons fun _ => equality_builds.cons fun _ =>
      truthValue_builds.map _)).mono ?_
    rintro _ _ ⟨_, rfl, letters, _, rfl, _, _, _, rfl, hname, _, _, _, rfl, hoperator, _,
      ⟨_, rfl, hvalue⟩, rfl⟩
    exact ⟨_, rfl, .truthLast hname hoperator hvalue⟩
  · refine (Builds.rule (number_builds.cons fun _ => comparison_builds.cons fun _ =>
      variableName_builds.map _)).mono ?_
    rintro _ _ ⟨_, rfl, letters, _, rfl, _, _, _, rfl, hnumber, _, _, _, rfl, hoperator, _,
      ⟨_, rfl, hname⟩, rfl⟩
    exact ⟨_, rfl, .numberFirst hnumber hoperator hname⟩
  · refine (Builds.rule (variableName_builds.cons fun _ => comparison_builds.cons fun _ =>
      number_builds.map _)).mono ?_
    rintro _ _ ⟨_, rfl, letters, _, rfl, _, _, _, rfl, hname, _, _, _, rfl, hoperator, _,
      ⟨_, rfl, hnumber⟩, rfl⟩
    exact ⟨_, rfl, .numberLast hname hoperator hnumber⟩
  · have hword : inWord.Builds (.rule .inWord) fun _ => One fun node => node.rule = .inWord :=
      .token (word_reads _) fun _ _ _ _ _ => rfl
    refine (Builds.rule (variableName_builds.cons fun name => hword.cons fun _ =>
      interval_builds.map fun found => Condition.membership name found.1 found.2)).mono ?_
    rintro _ _ ⟨_, rfl, letters, _, rfl, _, _, _, rfl, hname, _, _, _, rfl, hin, _,
      ⟨_, rfl, hinterval⟩, rfl⟩
    exact ⟨_, rfl, .membership hname hin hinterval⟩

theorem conditions_builds : conditions.Builds (.rule .conditions) fun found =>
    One (ShowsConditions found) := by
  refine (Builds.rule (condition_builds.cons fun _ =>
    (Builds.many (.after_literal _ condition_builds)).map _)).mono ?_
  rintro _ _ ⟨_, rfl, letters, _, rfl, first, _, _, rfl, hfirst, others, hothers, rfl⟩
  exact ⟨_, rfl, showsConditions (.cons hfirst hothers) (List.cons_ne_nil first others)⟩

theorem guard_builds : guard.Builds .guard fun found => One (ShowsConditions found) := by
  refine (Builds.after_literal _ (conditions_builds.before_literal _ id)).mono ?_
  rintro _ _ ⟨_, hguard, rfl⟩
  exact hguard

/-! ## Decisions -/

section

variable {inner : Parser Decision}
  (h : inner.Builds (.rule .decision) fun decision => One (ShowsDecision decision))

include h

theorem block_builds : (block inner).Builds .block (List.Forall₂ ShowsDecision) := by
  refine (Builds.after_literal _ (h.many.before_literal _ id)).mono ?_
  rintro _ _ ⟨_, hdecisions, rfl⟩
  exact hdecisions

theorem body_builds : (body inner).Builds (.rule .body) fun found => One (ShowsBody found) := by
  refine (Builds.rule (block_builds h)).mono ?_
  rintro _ _ ⟨_, rfl, letters, nodes, rfl, hdecisions⟩
  exact ⟨_, rfl, showsBody hdecisions⟩

theorem alternative_builds :
    (alternative inner).Builds (.rule .alternative) fun found => One (ShowsElseIf found) := by
  refine (Builds.rule (elseWord_builds.cons fun _ => ifWord_builds.cons fun _ =>
    guard_builds.cons fun _ => (body_builds h).optional.map _)).mono ?_
  rintro _ _ ⟨_, rfl, letters, _, rfl, _, _, _, rfl, helse, _, _, _, rfl, hif, _, _, _, rfl, hguard,
    _, hbody, rfl⟩
  exact ⟨_, rfl, showsElseIf helse hif hguard hbody⟩

theorem closing_builds :
    (closing inner).Builds (.rule .closing) fun found => One (ShowsClosing found) := by
  refine (Builds.rule (elseWord_builds.cons fun _ => block_builds h)).mono ?_
  rintro _ _ ⟨_, rfl, letters, _, rfl, _, _, _, rfl, hword, hdecisions⟩
  exact ⟨_, rfl, showsClosing hword hdecisions⟩

end

theorem decision_builds (depth : Nat) :
    (decision depth).Builds (.rule .decision) fun found => One (ShowsDecision found) := by
  induction depth with
  | zero => exact .fail
  | succ depth ih =>
      refine (Builds.rule (ifWord_builds.cons fun _ => guard_builds.cons fun _ =>
        (body_builds ih).optional.bind fun _ => (alternative_builds ih).many.bind fun _ =>
          (closing_builds ih).optional.map _)).mono ?_
      rintro _ _ ⟨_, rfl, letters, _, rfl, _, _, _, rfl, hword, _, _, _, rfl, hguard, _, _, _, rfl,
        hbody, _, _, _, rfl, helseIfs, _, hclosing, rfl⟩
      exact ⟨_, rfl, showsDecision hword hguard hbody helseIfs hclosing⟩

end Parser

/-! ## Statements -/

/-- The error about a numeral that is not greater than zero. -/
def refusal (literal : Numeral) : BuildError := .refused literal.spelling

/-- What is built from the node is what the statement says. -/
inductive ShowsItem : Item → Node → Prop
  | declaration {name : String} {type : TypeExpr} {node : Node} (hrule : node.rule = .declaration)
      (h : node.buildVariable = (type.valueType.mapError refusal).map (⟨name, ·⟩)) :
      ShowsItem (.declaration name type) node
  | decision {found : Decision} {node : Node} (h : ShowsDecision found node) :
      ShowsItem (.decision found) node
  | nested {items : List Item} {node : Node} (hrule : node.rule = .feature)
      (h : node.buildFeature = (Feature.ofItems items).mapError refusal) :
      ShowsItem (.nested items) node

namespace Feature

/-- The statements of one feature and then those of another. -/
def append (feature behind : Feature) : Feature :=
  ⟨feature.declarations ++ behind.declarations, feature.decisions ++ behind.decisions,
    feature.features ++ behind.features⟩

variable (feature behind : Feature)

theorem empty_append : empty.append behind = behind := by
  cases behind
  rfl

theorem append_empty : feature.append empty = feature := by
  cases feature
  simp [append, empty]

theorem addVariable_append (declared : Variable) : (feature.addVariable declared).append behind =
    feature.append { behind with declarations := declared :: behind.declarations } := by
  simp [append, addVariable]

theorem addDecision_append (decision : Decision) : (feature.addDecision decision).append behind =
    feature.append { behind with decisions := decision :: behind.decisions } := by
  simp [append, addDecision]

theorem addFeature_append (nested : Feature) : (feature.addFeature nested).append behind =
    feature.append { behind with features := nested :: behind.features } := by
  simp [append, addFeature]

end Feature

/-- The builders add one statement after the other behind a feature, or stop at the precision
at which reading stops. -/
theorem addToFeature_eq {items : List Item} {nodes : List Node}
    (h : List.Forall₂ ShowsItem items nodes) (feature : Feature) :
    addToFeature feature nodes =
      ((Feature.ofItems items).mapError refusal).map feature.append := by
  induction h generalizing feature with
  | nil =>
      rw [addToFeature, Feature.ofItems]
      exact congrArg Except.ok feature.append_empty.symm
  | @cons item node items nodes hfirst _ ih =>
      rw [addToFeature, Feature.ofItems]
      cases hfirst with
      | @declaration name type _ hrule hbuild =>
          rw [hrule, Item.interpret]
          dsimp only
          rw [hbuild]
          cases type.valueType with
          | error literal => rfl
          | ok declared =>
              change addToFeature (feature.addVariable ⟨name, declared⟩) nodes = _
              rw [ih]
              cases Feature.ofItems items with
              | error literal => rfl
              | ok behind => exact congrArg Except.ok (feature.addVariable_append behind _)
      | @decision found _ hshows =>
          rw [hshows.1, Item.interpret]
          dsimp only
          rw [hshows.2]
          change addToFeature (feature.addDecision found) nodes = _
          rw [ih]
          cases Feature.ofItems items with
          | error literal => rfl
          | ok behind => exact congrArg Except.ok (feature.addDecision_append behind found)
      | @nested inner _ hrule hbuild =>
          rw [hrule, Item.interpret]
          dsimp only
          rw [hbuild]
          cases Feature.ofItems inner with
          | error literal => rfl
          | ok nested =>
              change addToFeature (feature.addFeature nested) nodes = _
              rw [ih]
              cases Feature.ofItems items with
              | error literal => rfl
              | ok behind => exact congrArg Except.ok (feature.addFeature_append behind nested)

namespace Parser

theorem typeExpr_builds : typeExpr.Builds
    (.oneOf [.rule .boolType, .rule .intType, .rule .preciseType, .rule .numType]) fun type =>
      One (ShowsType (type.valueType.mapError refusal)) := by
  have hplain {name : Rule} {letters : List Char} {type : TypeExpr}
      (hform : name.form = .symbol letters)
      (hshows : ∀ letters inner,
        ShowsType (type.valueType.mapError refusal) ⟨name, letters, inner⟩) :
      (rule name (literal letters >>= fun _ => pure type)).Builds (.rule name) fun type =>
        One (ShowsType (type.valueType.mapError refusal)) := by
    refine (Builds.rule (hform ▸ (Builds.literal letters).map fun _ => type)).mono ?_
    rintro _ _ ⟨_, rfl, letters, inner, rfl, _, -, rfl⟩
    exact ⟨_, rfl, hshows letters inner⟩
  refine .orElse (hplain rfl fun _ _ => .bool) (.orElse (hplain rfl fun _ _ => .int)
    (.orElse ?_ (hplain rfl fun _ _ => .num)))
  have hprecision : precision.Builds (.rule .precision) fun numeral => One fun node =>
      node.buildPrecision.map .number = (TypeExpr.numWith numeral).valueType.mapError refusal := by
    refine .token precision_reads fun letters inner rest numeral hread => ?_
    obtain ⟨hvalid, htext⟩ := Numeral.text_of_read? hread
    obtain rfl := List.append_cancel_right htext
    rw [hvalid.buildPrecision, TypeExpr.valueType]
    split <;> rfl
  refine (Builds.rule (.after_literal _ (.after_literal _ (hprecision.before_literal _ _)))).mono ?_
  rintro _ _ ⟨_, rfl, letters, _, rfl, numeral, ⟨literal, rfl, hliteral⟩, rfl⟩
  exact ⟨_, rfl, hliteral ▸ .precise literal⟩

theorem declaration_builds : declaration.Builds (.rule .declaration) fun found =>
    One (ShowsItem found) := by
  have hword : varWord.Builds (.rule .varWord) fun _ => One fun node => node.rule = .varWord :=
    .token (word_reads _) fun _ _ _ _ _ => rfl
  refine (Builds.rule (hword.cons fun _ => variableName_builds.cons fun _ => .after_literal _
    (typeExpr_builds.map _))).mono ?_
  rintro _ _ ⟨_, rfl, letters, _, rfl, _, _, _, rfl, hword, name, _, _, rfl, hname, type,
    ⟨_, rfl, htype⟩, rfl⟩
  exact ⟨_, rfl, .declaration rfl (buildVariable_eq hword hname htype)⟩

theorem item_builds {depth : Nat} {inner : Parser (List Item)}
    (h : inner.Builds (.rule .feature) fun items => One (ShowsItem (.nested items))) :
    (item depth inner).Builds .item fun found => One (ShowsItem found) := by
  refine declaration_builds.orElse (.orElse (((decision_builds depth).map _).mono ?_)
    ((h.map _).mono ?_))
  · rintro _ _ ⟨found, ⟨node, rfl, hnode⟩, rfl⟩
    exact ⟨node, rfl, .decision hnode⟩
  · rintro _ _ ⟨items, hnodes, rfl⟩
    exact hnodes

theorem feature_builds (depth : Nat) : (feature depth).Builds (.rule .feature) fun items =>
    One (ShowsItem (.nested items)) := by
  induction depth with
  | zero => exact .fail
  | succ depth ih =>
      refine (Builds.rule (.after_literal _ ((item_builds ih).many1.before_literal _ id))).mono ?_
      rintro items _ ⟨_, rfl, letters, nodes, rfl, found, hitems, hfound⟩
      obtain rfl : found = items := hfound.symm
      refine ⟨_, rfl, .nested rfl ?_⟩
      rw [buildFeature, addToFeature_eq hitems]
      cases Feature.ofItems found with
      | error literal => rfl
      | ok whole => exact congrArg Except.ok whole.empty_append

end Parser

namespace Parser

/-- A source that is read as a whole has a syntax tree, from which the same is built. -/
theorem source_builds {source last : List Char} {items : List Item}
    (h : (Parser.source source.length).run source = some (items, last)) :
    ∃ file, SyntaxTree source file ∧
      buildSource [file] = (Feature.ofItems items).mapError refusal := by
  rw [source_run] at h
  obtain ⟨⟨found, behind⟩, hrun, hend⟩ := Option.bind_eq_some_iff.mp h
  dsimp only at hend
  split at hend
  · next hempty =>
      cases hend
      obtain rfl := List.isEmpty_iff.mp hempty
      obtain ⟨middle, _, hfeature, hmiddle, node, rfl, hnode⟩ := feature_builds _ source _ _ hrun
      have hgap : Gap middle [] := by
        rw [hmiddle]
        exact gap_skipGap middle
      have hfinish : Parses (.rule .endOfInput) ([] ++ []) [] [⟨.endOfInput, [], []⟩] :=
        .rule .finish
      have hwhole : Parses Rule.file.form source [] [node, ⟨.endOfInput, [], []⟩] :=
        .sequence (.nothing source) (gap_skipGap source) (.sequence hfeature hgap hfinish)
      obtain ⟨letters, -, hfile⟩ := hwhole.exists_rule
      cases hnode with
      | nested hrule hbuild => exact ⟨_, hfile, (buildSource_eq hrule).trans hbuild⟩
  · cases hend

end Parser

/-- Where a text follows the grammar, reading it gives what is built from one of its syntax
trees. -/
theorem Feature.exists_tree_of_parse {source : List Char} (h : FollowsGrammar source) :
    ∃ file items, SyntaxTree source file ∧
      Feature.parse source = (Feature.ofItems items).mapError .precision ∧
        buildSource [file] = (Feature.ofItems items).mapError refusal := by
  obtain ⟨⟨items, last⟩, hrun⟩ :=
    Option.isSome_iff_exists.mp ((Parser.source_run_isSome_iff source).mpr h)
  obtain ⟨file, htree, hbuild⟩ := Parser.source_builds hrun
  refine ⟨file, items, htree, ?_, hbuild⟩
  unfold Feature.parse
  rw [hrun]

end DecisionTuples
