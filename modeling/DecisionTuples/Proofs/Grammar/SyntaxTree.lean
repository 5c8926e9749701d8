import DecisionTuples.Proofs.Grammar.Form

/-!
# Syntax trees

A derivation gives a tree: one node for each rule, with the letters that stand for the rule
and the nodes of the rules within it.  Fixed characters and gaps give no nodes.

`Parses` derives a text as `Derives` does, and gives the nodes besides.  It leaves open
which alternative is taken, so one text can have several trees.  What is proved of every
tree holds whatever the order in which alternatives are tried.
-/

namespace DecisionTuples

/-! ## Nodes -/

/-- A rule, the letters that stand for it, and the nodes within it. -/
structure Node where
  rule : Rule
  letters : List Char
  inner : List Node

namespace Node

/-- The letters as a text. -/
def text (node : Node) : String := .ofList node.letters

mutual

/-- The node and all nodes within it, in the order in which they begin. -/
def all : Node → List Node
  | ⟨rule, letters, inner⟩ => ⟨rule, letters, inner⟩ :: allOf inner

/-- The given nodes and all nodes within them. -/
def allOf : List Node → List Node
  | [] => []
  | node :: rest => node.all ++ allOf rest

end

/-- The spellings of the declared precisions, at any depth and in the order of the text. -/
def precisions (nodes : List Node) : List (List Char) :=
  ((allOf nodes).filter fun node => node.rule = .precision).map letters

theorem allOf_append (nodes others : List Node) :
    allOf (nodes ++ others) = allOf nodes ++ allOf others := by
  induction nodes with
  | nil => rw [List.nil_append, allOf, List.nil_append]
  | cons node rest ih => rw [List.cons_append, allOf, ih, allOf, List.append_assoc]

@[simp] theorem precisions_nil : precisions [] = [] := by
  rw [precisions, allOf]
  rfl

@[simp] theorem precisions_append (nodes others : List Node) :
    precisions (nodes ++ others) = precisions nodes ++ precisions others := by
  simp only [precisions, allOf_append, List.filter_append, List.map_append]

theorem precisions_cons (node : Node) (rest : List Node) :
    precisions (node :: rest) = precisions [node] ++ precisions rest :=
  precisions_append [node] rest

theorem precisions_precision (letters : List Char) :
    precisions [⟨.precision, letters, []⟩] = [letters] := by
  simp [precisions, allOf, all]

/-- Elsewhere the precisions are those within the node. -/
theorem precisions_singleton {name : Rule} (h : name ≠ .precision) (letters : List Char)
    (inner : List Node) : precisions [⟨name, letters, inner⟩] = precisions inner := by
  simp [precisions, allOf, all, h]

end Node

/-! ## Derivations with their nodes -/

/-- What stands before the second text is a word of the form, and these are its nodes. -/
inductive Parses : Form → List Char → List Char → List Node → Prop
  | nothing (text : List Char) : Parses .nothing text text []
  | finish : Parses .finish [] [] []
  | symbol (letters rest : List Char) : Parses (.symbol letters) (letters ++ rest) rest []
  | word (letters : List Char) {rest : List Char} (hend : AtWordEnd rest) :
      Parses (.word letters) (letters ++ rest) rest []
  | longest {language : List Char → Prop} {text rest : List Char}
      (h : Longest language text rest) : Parses (.longest language) text rest []
  | rule {name : Rule} {letters rest : List Char} {inner : List Node}
      (h : Parses name.form (letters ++ rest) rest inner) :
      Parses (.rule name) (letters ++ rest) rest [⟨name, letters, inner⟩]
  | sequence {first second : Form} {text middle next rest : List Char} {nodes others : List Node}
      (hfirst : Parses first text middle nodes) (hgap : Gap middle next)
      (hsecond : Parses second next rest others) :
      Parses (.sequence first second) text rest (nodes ++ others)
  | left {first second : Form} {text rest : List Char} {nodes : List Node}
      (h : Parses first text rest nodes) : Parses (.choice first second) text rest nodes
  | right {first second : Form} {text rest : List Char} {nodes : List Node}
      (h : Parses second text rest nodes) : Parses (.choice first second) text rest nodes
  | stop {form : Form} (text : List Char) : Parses (.repeated form) text text []
  | more {form : Form} {text middle next rest : List Char} {nodes others : List Node}
      (hfirst : Parses form text middle nodes) (hgap : Gap middle next)
      (hrest : Parses (.repeated form) next rest others) :
      Parses (.repeated form) text rest (nodes ++ others)
  | absent {form : Form} (text : List Char) : Parses (.optionally form) text text []
  | present {form : Form} {text rest : List Char} {nodes : List Node}
      (h : Parses form text rest nodes) : Parses (.optionally form) text rest nodes

variable {first second form : Form} {text rest : List Char} {nodes : List Node}

theorem Parses.derives (h : Parses form text rest nodes) : Derives form text rest := by
  induction h with
  | nothing text => exact .nothing text
  | finish => exact .finish
  | symbol letters rest => exact .symbol letters rest
  | word letters hend => exact .word letters hend
  | longest h => exact .longest h
  | rule _ ih => exact .rule ih
  | sequence _ hgap _ ihfirst ihsecond => exact .sequence ihfirst hgap ihsecond
  | left _ ih => exact .left ih
  | right _ ih => exact .right ih
  | stop text => exact .stop text
  | more _ hgap _ ihfirst ihrest => exact .more ihfirst hgap ihrest
  | absent text => exact .absent text
  | present _ ih => exact .present ih

/-- A word of the form of a rule is the node of the rule. -/
theorem Parses.exists_rule {name : Rule} (h : Parses name.form text rest nodes) :
    ∃ letters, text = letters ++ rest ∧ Parses (.rule name) text rest [⟨name, letters, nodes⟩] := by
  obtain ⟨letters, rfl⟩ := h.derives.suffix
  exact ⟨letters, rfl, .rule h⟩

/-- What is derived has nodes. -/
theorem exists_parses_iff : (∃ nodes, Parses form text rest nodes) ↔ Derives form text rest := by
  constructor
  · rintro ⟨nodes, h⟩
    exact h.derives
  · intro h
    induction h with
    | nothing text => exact ⟨_, .nothing text⟩
    | finish => exact ⟨_, .finish⟩
    | symbol letters rest => exact ⟨_, .symbol letters rest⟩
    | word letters hend => exact ⟨_, .word letters hend⟩
    | longest h => exact ⟨_, .longest h⟩
    | rule _ ih =>
        obtain ⟨inner, h⟩ := ih
        obtain ⟨letters, -, h⟩ := h.exists_rule
        exact ⟨_, h⟩
    | sequence _ hgap _ ihfirst ihsecond =>
        obtain ⟨nodes, hfirst⟩ := ihfirst
        obtain ⟨others, hsecond⟩ := ihsecond
        exact ⟨nodes ++ others, .sequence hfirst hgap hsecond⟩
    | left _ ih =>
        obtain ⟨nodes, h⟩ := ih
        exact ⟨nodes, .left h⟩
    | right _ ih =>
        obtain ⟨nodes, h⟩ := ih
        exact ⟨nodes, .right h⟩
    | stop text => exact ⟨_, .stop text⟩
    | more _ hgap _ ihfirst ihrest =>
        obtain ⟨nodes, hfirst⟩ := ihfirst
        obtain ⟨others, hrest⟩ := ihrest
        exact ⟨nodes ++ others, .more hfirst hgap hrest⟩
    | absent text => exact ⟨_, .absent text⟩
    | present _ ih =>
        obtain ⟨nodes, h⟩ := ih
        exact ⟨nodes, .present h⟩

/-! ## The nodes of a form -/

namespace Form

/-- Whatever has no more nodes than the bound and is derived from the form has nodes with the
property. -/
def Gives (bound : Nat) (form : Form) (P : List Node → Prop) : Prop :=
  ∀ text rest nodes, (Node.allOf nodes).length ≤ bound → Parses form text rest nodes → P nodes

end Form

/-- There is just one node, and it has the property. -/
def One (P : Node → Prop) (nodes : List Node) : Prop := ∃ node, nodes = [node] ∧ P node

/-- There is one node with the property, or none. -/
def AtMostOne (P : Node → Prop) (nodes : List Node) : Prop := nodes = [] ∨ One P nodes

namespace Form.Gives

variable {bound : Nat} {P Q : List Node → Prop} {R S : Node → Prop}

theorem mono (h : form.Gives bound P) (himp : ∀ nodes, P nodes → Q nodes) : form.Gives bound Q :=
  fun text rest nodes hbound hparses => himp nodes (h text rest nodes hbound hparses)

theorem of_le {bound' : Nat} (h : form.Gives bound P) (hle : bound' ≤ bound) :
    form.Gives bound' P :=
  fun text rest nodes hbound => h text rest nodes (hbound.trans hle)

theorem symbol (letters : List Char) : (Form.symbol letters).Gives bound (· = []) := by
  intro text rest nodes _ hparses
  cases hparses
  rfl

theorem nothing : Form.nothing.Gives bound (· = []) := by
  intro text rest nodes _ hparses
  cases hparses
  rfl

/-- Within the node of a rule there are fewer nodes. -/
theorem rule_succ {name : Rule} (h : name.form.Gives bound P) :
    (Form.rule name).Gives (bound + 1)
      (One fun node => ∃ letters inner, node = ⟨name, letters, inner⟩ ∧ P inner) := by
  intro text rest nodes hbound hparses
  cases hparses with
  | rule hinner =>
      rw [Node.allOf, Node.all, Node.allOf, List.append_nil, List.length_cons] at hbound
      exact ⟨_, rfl, _, _, rfl, h _ rest _ (Nat.le_of_succ_le_succ hbound) hinner⟩

theorem rule {name : Rule} (h : name.form.Gives bound P) :
    (Form.rule name).Gives bound
      (One fun node => ∃ letters inner, node = ⟨name, letters, inner⟩ ∧ P inner) :=
  h.rule_succ.of_le (Nat.le_succ bound)

/-- No node is within the bound of no nodes. -/
theorem rule_zero (name : Rule) : (Form.rule name).Gives 0 P := by
  intro text rest nodes hbound hparses
  cases hparses with
  | rule hinner =>
      rw [Node.allOf, Node.all] at hbound
      cases hbound

theorem sequence (h : first.Gives bound P) (h' : second.Gives bound Q) :
    (Form.sequence first second).Gives bound fun nodes =>
      ∃ front back, nodes = front ++ back ∧ P front ∧ Q back := by
  intro text rest nodes hbound hparses
  cases hparses with
  | sequence hfirst hgap hsecond =>
      rw [Node.allOf_append, List.length_append] at hbound
      exact ⟨_, _, rfl, h _ _ _ (by omega) hfirst, h' _ _ _ (by omega) hsecond⟩

/-- A form with one node, and then another form. -/
theorem cons (h : first.Gives bound (One R)) (h' : second.Gives bound Q) :
    (Form.sequence first second).Gives bound fun nodes =>
      ∃ node others, nodes = node :: others ∧ R node ∧ Q others :=
  (h.sequence h').mono fun _ ⟨_, others, hnodes, ⟨node, hfront, hnode⟩, hothers⟩ =>
    ⟨node, others, by rw [hnodes, hfront, List.singleton_append], hnode, hothers⟩

/-- Fixed characters in front give no nodes. -/
theorem after_symbol (letters : List Char) (h : form.Gives bound P) :
    (Form.sequence (.symbol letters) form).Gives bound P :=
  ((symbol letters).sequence h).mono fun _ ⟨_, _, hnodes, hfront, hback⟩ => by
    rwa [hnodes, hfront, List.nil_append]

/-- Fixed characters behind give no nodes. -/
theorem before_symbol (letters : List Char) (h : form.Gives bound P) :
    (Form.sequence form (.symbol letters)).Gives bound P :=
  (h.sequence (symbol letters)).mono fun _ ⟨_, _, hnodes, hfront, hback⟩ => by
    rwa [hnodes, hback, List.append_nil]

theorem choice (h : first.Gives bound P) (h' : second.Gives bound P) :
    (Form.choice first second).Gives bound P := by
  intro text rest nodes hbound hparses
  cases hparses with
  | left hfirst => exact h text rest nodes hbound hfirst
  | right hsecond => exact h' text rest nodes hbound hsecond

theorem optionally (h : form.Gives bound (One R)) :
    (Form.optionally form).Gives bound (AtMostOne R) := by
  intro text rest nodes hbound hparses
  cases hparses with
  | absent text => exact .inl rfl
  | present hpresent => exact .inr (h text rest nodes hbound hpresent)

/-- A repetition of words with one node each. -/
theorem repeated (h : form.Gives bound (One R)) :
    (Form.repeated form).Gives bound fun nodes => ∀ node ∈ nodes, R node := by
  intro text rest nodes hbound hparses
  generalize hform : Form.repeated form = whole at hparses
  induction hparses with
  | stop text => exact fun _ hnode => absurd hnode List.not_mem_nil
  | more hfirst _ _ _ ihrest =>
      cases hform
      rw [Node.allOf_append, List.length_append] at hbound
      obtain ⟨node, rfl, hnode⟩ := h _ _ _ (by omega) hfirst
      exact List.forall_mem_cons.mpr ⟨hnode, ihrest (by omega) rfl⟩
  | _ => cases hform

end Form.Gives

/-! ## Whole sources -/

/-- The node is that of the whole source, in one of its derivations. -/
def SyntaxTree (source : List Char) (file : Node) : Prop :=
  Parses (.rule .file) source [] [file]

/-- A text follows the grammar exactly if it has a syntax tree. -/
theorem exists_syntaxTree_iff {source : List Char} :
    (∃ file, SyntaxTree source file) ↔ FollowsGrammar source := by
  unfold FollowsGrammar
  rw [← exists_parses_iff]
  constructor
  · rintro ⟨file, h⟩
    exact ⟨[file], h⟩
  · rintro ⟨nodes, h⟩
    cases h with
    | rule h => exact ⟨_, .rule h⟩

end DecisionTuples
