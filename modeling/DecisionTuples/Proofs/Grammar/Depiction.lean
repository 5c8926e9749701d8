import DecisionTuples.Proofs.Except
import DecisionTuples.Proofs.Grammar.Building

/-!
# What the builders make of the nodes of a construct

`Shows name build a node` says that the node is one of the rule and is built to the value.
For each construct it is shown of the node if it is shown of the nodes within it, in the
order in which the grammar puts them there.
-/

namespace DecisionTuples

open Node

/-- The node is one of the rule, and this is what is built from it. -/
def Shows {α : Type} (name : Rule) (build : Node → Except BuildError α) (a : α) (node : Node) :
    Prop :=
  node.rule = name ∧ build node = .ok a

/-- There is no node and no value, or the one node shows the value. -/
def ShowsOption {α : Type} (R : α → Node → Prop) : Option α → List Node → Prop
  | none, nodes => nodes = []
  | some a, nodes => One (R a) nodes

/-- The node of a name. -/
def ShowsName : String → Node → Prop := Shows .variableName fun node => .ok node.text

/-- The node of a truth value. -/
def ShowsTruth : Bool → Node → Prop := Shows .truthValue fun node => .ok node.buildTruth

/-- The node of a comparison with a truth value. -/
def ShowsEquality : Equality → Node → Prop := Shows .equality buildEquality

/-- The node of a comparison with a number. -/
def ShowsComparison : Comparison → Node → Prop := Shows .comparison buildComparison

/-- The node of a number. -/
def ShowsNumber : Number → Node → Prop := Shows .number buildNumber

/-- The node of the bracket before an interval. -/
def ShowsLower : Bool → Node → Prop := Shows .lowerBracket fun node => .ok (node.text == "(")

/-- The node of the bracket behind an interval. -/
def ShowsUpper : Bool → Node → Prop := Shows .upperBracket fun node => .ok (node.text == ")")

/-- The node of an interval. -/
def ShowsInterval : Interval × Openness → Node → Prop := Shows .interval buildInterval

/-- The node of the conditions of a decision. -/
def ShowsConditions : List Condition → Node → Prop := Shows .conditions buildConditions

/-- The node of a body. -/
def ShowsBody : List Decision → Node → Prop := Shows .body buildBody

/-- The node of an alternative with conditions. -/
def ShowsElseIf : ElseIf → Node → Prop := Shows .alternative buildElseIf

/-- The node of the closing alternative. -/
def ShowsClosing : List Decision → Node → Prop := Shows .closing buildBody

/-- The node of a decision. -/
def ShowsDecision : Decision → Node → Prop := Shows .decision buildDecision

variable {letters : List Char} {node : Node} {nodes rest : List Node}

/-! ## Conditions -/

theorem showsInterval {lower lo hi upper : Node} {a b : Number} {loOpen hiOpen : Bool}
    (hlower : ShowsLower loOpen lower) (hlo : ShowsNumber a lo) (hhi : ShowsNumber b hi)
    (hupper : ShowsUpper hiOpen upper) :
    ShowsInterval (⟨a, b⟩, ⟨loOpen, hiOpen⟩) ⟨.interval, letters, [lower, lo, hi, upper]⟩ := by
  obtain ⟨hlower, ⟨⟩⟩ := hlower
  obtain ⟨hupper, ⟨⟩⟩ := hupper
  refine ⟨rfl, ?_⟩
  simp only [buildInterval, List.foldlM_cons, List.foldlM_nil, IntervalParts.add, hlower, hlo.1,
    hhi.1, hupper, hlo.2, hhi.2]
  rfl

/-- The node of a condition, in each of the five ways in which it can be written. -/
inductive ShowsCondition : Condition → Node → Prop
  | truthFirst {truth : Bool} {equality : Equality} {spelling : String} {letters : List Char}
      {value operator name : Node} (hvalue : ShowsTruth truth value)
      (hoperator : ShowsEquality equality operator) (hname : ShowsName spelling name) :
      ShowsCondition (.truth spelling equality truth)
        ⟨.truthFirst, letters, [value, operator, name]⟩
  | truthLast {truth : Bool} {equality : Equality} {spelling : String} {letters : List Char}
      {name operator value : Node} (hname : ShowsName spelling name)
      (hoperator : ShowsEquality equality operator) (hvalue : ShowsTruth truth value) :
      ShowsCondition (.truth spelling equality truth) ⟨.truthLast, letters, [name, operator, value]⟩
  | numberFirst {constant : Number} {comparison : Comparison} {spelling : String}
      {letters : List Char} {number operator name : Node} (hnumber : ShowsNumber constant number)
      (hoperator : ShowsComparison comparison operator) (hname : ShowsName spelling name) :
      ShowsCondition (.comparison spelling .left constant comparison)
        ⟨.numberFirst, letters, [number, operator, name]⟩
  | numberLast {constant : Number} {comparison : Comparison} {spelling : String}
      {letters : List Char} {name operator number : Node} (hname : ShowsName spelling name)
      (hoperator : ShowsComparison comparison operator) (hnumber : ShowsNumber constant number) :
      ShowsCondition (.comparison spelling .right constant comparison)
        ⟨.numberLast, letters, [name, operator, number]⟩
  | membership {bounds : Interval} {openness : Openness} {spelling : String} {letters : List Char}
      {name inNode interval : Node} (hname : ShowsName spelling name) (hin : inNode.rule = .inWord)
      (hinterval : ShowsInterval (bounds, openness) interval) :
      ShowsCondition (.membership spelling bounds openness)
        ⟨.membership, letters, [name, inNode, interval]⟩

/-- A condition is built from its node. -/
theorem ShowsCondition.build {condition : Condition} (h : ShowsCondition condition node) :
    node.buildCondition = .ok condition := by
  cases h with
  | truthFirst hvalue hoperator hname | truthLast hname hoperator hvalue =>
      obtain ⟨hvalue, ⟨⟩⟩ := hvalue
      obtain ⟨hname, ⟨⟩⟩ := hname
      simp only [buildCondition, List.foldlM_cons, List.foldlM_nil, ConditionParts.add, hvalue,
        hoperator.1, hname, hoperator.2]
      rfl
  | numberFirst hnumber hoperator hname | numberLast hname hoperator hnumber =>
      obtain ⟨hname, ⟨⟩⟩ := hname
      simp only [buildCondition, List.foldlM_cons, List.foldlM_nil, ConditionParts.add, hnumber.1,
        hoperator.1, hname, hnumber.2, hoperator.2]
      rfl
  | membership hname hin hinterval =>
      obtain ⟨hname, ⟨⟩⟩ := hname
      simp only [buildCondition, List.foldlM_cons, List.foldlM_nil, ConditionParts.add, hname, hin,
        hinterval.1, hinterval.2]
      rfl

theorem showsConditions {found : List Condition} (h : List.Forall₂ ShowsCondition found nodes)
    (hne : found ≠ []) : ShowsConditions found ⟨.conditions, letters, nodes⟩ := by
  have hmap : nodes.mapM buildCondition = .ok found :=
    mapM_eq_ok_iff.mpr (h.flip.imp fun _ _ => ShowsCondition.build)
  refine ⟨rfl, ?_⟩
  unfold buildConditions
  rw [hmap]
  cases found with
  | nil => exact absurd rfl hne
  | cons first others => rfl

/-! ## Declarations -/

/-- The node of a type, whose precision may be refused. -/
inductive ShowsType : Except BuildError ValueType → Node → Prop
  | bool {letters : List Char} {inner : List Node} :
      ShowsType (.ok .bool) ⟨.boolType, letters, inner⟩
  | int {letters : List Char} {inner : List Node} :
      ShowsType (.ok .int) ⟨.intType, letters, inner⟩
  | num {letters : List Char} {inner : List Node} :
      ShowsType (.ok .num) ⟨.numType, letters, inner⟩
  | precise {letters : List Char} (literal : Node) :
      ShowsType (literal.buildPrecision.map .number) ⟨.preciseType, letters, [literal]⟩

theorem buildVariable_eq {type : Except BuildError ValueType} {spelling : String}
    {word name written : Node} (hword : word.rule = .varWord) (hname : ShowsName spelling name)
    (htype : ShowsType type written) :
    buildVariable ⟨.declaration, letters, [word, name, written]⟩ = type.map (⟨spelling, ·⟩) := by
  obtain ⟨hname, ⟨⟩⟩ := hname
  simp only [buildVariable, List.foldlM_cons, List.foldlM_nil, DeclarationParts.add, hword, hname]
  cases htype with
  | precise literal =>
      simp only [BuildError.require, List.head?_cons, bind, Except.bind]
      cases literal.buildPrecision <;> rfl
  | _ => rfl

/-! ## Decisions -/

theorem buildDecisions_eq {found : List Decision} (h : List.Forall₂ ShowsDecision found nodes) :
    buildDecisions nodes = .ok found := by
  induction h with
  | nil => rw [buildDecisions]
  | cons hfirst _ ih =>
      rw [buildDecisions, if_pos hfirst.1, hfirst.2, ih]
      rfl

theorem showsBody {found : List Decision} (h : List.Forall₂ ShowsDecision found nodes) :
    ShowsBody found ⟨.body, letters, nodes⟩ :=
  ⟨rfl, by rw [buildBody, buildDecisions_eq h]⟩

theorem showsClosing {word : Node} {found : List Decision} (hword : word.rule = .elseWord)
    (h : List.Forall₂ ShowsDecision found nodes) :
    ShowsClosing found ⟨.closing, letters, word :: nodes⟩ := by
  have hskip : ¬ word.rule = .decision := by
    rw [hword]
    decide
  exact ⟨rfl, by rw [buildBody, buildDecisions, if_neg hskip, buildDecisions_eq h]⟩

theorem showsElseIf {elseNode ifNode guard : Node} {conditions : List Condition}
    {body : Option (List Decision)} (helse : elseNode.rule = .elseWord)
    (hif : ifNode.rule = .ifWord) (hguard : ShowsConditions conditions guard)
    (hbody : ShowsOption ShowsBody body nodes) :
    ShowsElseIf ⟨conditions, body⟩
      ⟨.alternative, letters, elseNode :: ifNode :: guard :: nodes⟩ := by
  refine ⟨rfl, ?_⟩
  rw [buildElseIf, addToElseIf, helse, addToElseIf, hif, addToElseIf, hguard.1, hguard.2]
  cases body with
  | none =>
      obtain rfl : nodes = [] := hbody
      rfl
  | some found =>
      obtain ⟨node, rfl, hbody⟩ := hbody
      change addToElseIf _ [node] >>= _ = _
      rw [addToElseIf, hbody.1, hbody.2]
      rfl

section

variable {parts : DecisionParts}

theorem addToDecision_body {body : Option (List Decision)} (h : ShowsOption ShowsBody body nodes)
    (hnone : parts.body = none) :
    addToDecision parts (nodes ++ rest) = addToDecision { parts with body := body } rest := by
  cases body with
  | none =>
      obtain rfl : nodes = [] := h
      rw [← hnone]
      rfl
  | some found =>
      obtain ⟨node, rfl, hnode⟩ := h
      rw [List.singleton_append, addToDecision, hnode.1, hnode.2]
      rfl

theorem addToDecision_elseIfs {found : List ElseIf} (h : List.Forall₂ ShowsElseIf found nodes) :
    addToDecision parts (nodes ++ rest) =
      addToDecision { parts with elseIfs := parts.elseIfs ++ found } rest := by
  induction h generalizing parts with
  | nil => rw [List.append_nil, List.nil_append]
  | cons hfirst _ ih =>
      rw [List.cons_append, addToDecision, hfirst.1, hfirst.2]
      change addToDecision { parts with elseIfs := parts.elseIfs ++ [_] } _ = _
      rw [ih, List.append_assoc, List.singleton_append]

theorem addToDecision_closing {otherwise : Option (List Decision)}
    (h : ShowsOption ShowsClosing otherwise nodes) (hnone : parts.otherwise = none) :
    addToDecision parts nodes = .ok { parts with otherwise := otherwise } := by
  cases otherwise with
  | none =>
      obtain rfl : nodes = [] := h
      rw [addToDecision, ← hnone]
  | some found =>
      obtain ⟨node, rfl, hnode⟩ := h
      rw [addToDecision, hnode.1, hnode.2]
      change addToDecision _ [] = _
      rw [addToDecision]

end

theorem showsDecision {word guard : Node} {body elseIfs closing : List Node}
    {decision : Decision} (hword : word.rule = .ifWord)
    (hguard : ShowsConditions decision.conditions guard)
    (hbody : ShowsOption ShowsBody decision.body body)
    (helseIfs : List.Forall₂ ShowsElseIf decision.elseIfs elseIfs)
    (hclosing : ShowsOption ShowsClosing decision.otherwise closing) :
    ShowsDecision decision
      ⟨.decision, letters, word :: guard :: (body ++ (elseIfs ++ closing))⟩ := by
  cases decision
  refine ⟨rfl, ?_⟩
  rw [buildDecision, addToDecision, hword, addToDecision, hguard.1, hguard.2]
  change addToDecision _ (body ++ (elseIfs ++ closing)) >>= _ = _
  rw [addToDecision_body hbody rfl, addToDecision_elseIfs helseIfs,
    addToDecision_closing hclosing rfl]
  rfl

/-! ## Whole sources -/

theorem buildSource_eq {feature : Node} (hrule : feature.rule = .feature) :
    buildSource [⟨.file, letters, feature :: rest⟩] = feature.buildFeature := by
  have hfind : (feature :: rest).find? (fun node => node.rule = .feature) = some feature :=
    List.find?_cons_of_pos (decide_eq_true hrule)
  change BuildError.require "feature" ((feature :: rest).find? _) >>= _ = _
  rw [hfind]
  rfl

end DecisionTuples
