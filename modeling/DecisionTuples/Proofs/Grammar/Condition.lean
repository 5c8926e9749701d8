import DecisionTuples.Grammar.Feature
import DecisionTuples.Proofs.Grammar.Recognition

/-!
# Reading conditions

The five forms of a condition overlap: `true`, `Inf` and every other word may also be
the name of a variable, so one text can be a condition in several ways.  The order in
which the forms are tried still does not matter.  Two operands at the same place end at
the same place, whatever they are taken for (`Operand.unique`), and so do two operators
(`Operator.unique`).  So all readings of a comparison end at the same place, and a
membership is never a comparison.
-/

namespace DecisionTuples
namespace Parser

variable {bound : Nat} {follow : List Char → Prop}

/-! ## Tokens -/

theorem literal_sound (letters : List Char) : (literal letters).Sound (.symbol letters) :=
  .lexeme (symbol_reads letters)

theorem literal_complete {c : Char} (hc : Solid c) (letters : List Char) :
    Complete bound follow (literal (c :: letters)) (.symbol (c :: letters)) := by
  refine .lexeme (symbol_reads _) ((Form.Begins.symbol c letters).mono ?_)
  exact forall_eq.mpr hc

theorem word_sound (letters : List Char) : (word letters).Sound (.word letters) :=
  .lexeme (word_reads letters)

theorem word_complete {c : Char} (hc : Solid c) (letters : List Char) :
    Complete bound follow (word (c :: letters)) (.word (c :: letters)) := by
  refine .lexeme (word_reads _) ((Form.Begins.word c letters).mono ?_)
  exact forall_eq.mpr hc

theorem varWord_sound : varWord.Sound (.rule .varWord) := .rule (word_sound _)

theorem ifWord_sound : ifWord.Sound (.rule .ifWord) := .rule (word_sound _)

theorem elseWord_sound : elseWord.Sound (.rule .elseWord) := .rule (word_sound _)

theorem inWord_sound : inWord.Sound (.rule .inWord) := .rule (word_sound _)

theorem truthValue_sound : truthValue.Sound (.rule .truthValue) := .rule (.lexeme truthValue_reads)

theorem equality_sound : equality.Sound (.rule .equality) := .rule (.lexeme equality_reads)

theorem comparison_sound : comparison.Sound (.rule .comparison) := .rule (.lexeme comparison_reads)

theorem variableName_sound : variableName.Sound (.rule .variableName) :=
  .rule (.lexeme variableName_reads)

theorem precision_sound : precision.Sound (.rule .precision) := .rule (.lexeme precision_reads)

theorem number_sound : number.Sound (.rule .number) := .rule (.lexeme number_reads)

theorem lowerBracket_sound : lowerBracket.Sound (.rule .lowerBracket) :=
  .rule (.lexeme (bracket_reads (by decide) true false))

theorem upperBracket_sound : upperBracket.Sound (.rule .upperBracket) :=
  .rule (.lexeme (bracket_reads (by decide) true false))

end Parser

/-! ## How tokens begin -/

open Form

theorem begins_ifWord : (Form.rule .ifWord).Begins (· = 'i') := .rule (.word _ _)

theorem begins_elseWord : (Form.rule .elseWord).Begins (· = 'e') := .rule (.word _ _)

theorem begins_varWord : (Form.rule .varWord).Begins (· = 'v') := .rule (.word _ _)

theorem begins_inWord : (Form.rule .inWord).Begins (· = 'i') := .rule (.word _ _)

theorem begins_truthValue : (Form.rule .truthValue).Begins fun c => isWordStart c = true := by
  refine .rule (.choice ((Begins.word _ _).mono ?_) ((Begins.word _ _).mono ?_))
  · rintro _ rfl
    decide
  · rintro _ rfl
    decide

theorem begins_variableName : (Form.rule .variableName).Begins fun c => isWordStart c = true := by
  refine .rule (.longest ?_)
  rintro spelling ⟨c, tail, rfl, hc, -⟩
  exact ⟨c, tail, rfl, hc⟩

theorem begins_numeral : (Form.longest IsNumeral).Begins fun c => c.isDigit = true := by
  refine .longest fun spelling hspelling => ?_
  exact exists_digit (hspelling.takeWhile_ne_nil (List.prefix_refl spelling))

theorem begins_precision : (Form.rule .precision).Begins Solid :=
  .rule (begins_numeral.mono fun _ => solid_of_isDigit)

/-- The characters with which numbers begin that are no words. -/
def NumberStart (c : Char) : Prop := c.isDigit = true ∨ c = '-'

instance (c : Char) : Decidable (NumberStart c) := inferInstanceAs (Decidable (_ ∨ _))

theorem IsSigned.opens {letters : List Char} (h : IsSigned letters) :
    Opens NumberStart letters := by
  rcases h with hnumeral | ⟨numeral, rfl, -⟩
  · obtain ⟨c, tail, rfl, hc⟩ :=
      exists_digit (hnumeral.takeWhile_ne_nil (List.prefix_refl letters))
    exact ⟨c, rfl, .inl hc⟩
  · exact ⟨'-', rfl, .inr rfl⟩

theorem begins_number :
    (Form.rule .number).Begins fun c => NumberStart c ∨ isWordStart c = true := by
  refine .rule (.choice (.sequence ((Begins.symbol _ _).mono ?_))
    (.choice ((Begins.word _ _).mono ?_) (.longest fun _ h => ?_)))
  · exact forall_eq.mpr (by decide)
  · exact forall_eq.mpr (by decide)
  · exact (h.opens.mono fun _ => Or.inl).exists_cons

theorem NumberStart.solid {c : Char} (h : NumberStart c) : Solid c := by
  rcases h with hdigit | rfl
  · exact solid_of_isDigit hdigit
  · decide

theorem solid_of_number (c : Char) (h : NumberStart c ∨ isWordStart c = true) : Solid c :=
  h.elim NumberStart.solid solid_of_isWordStart

/-- The characters with which comparisons begin. -/
def OperatorStart (c : Char) : Prop := c ∈ ['<', '>', '!', '=']

instance (c : Char) : Decidable (OperatorStart c) := inferInstanceAs (Decidable (c ∈ _))

theorem OperatorStart.solid (c : Char) (h : OperatorStart c) : Solid c := by
  simp only [OperatorStart, List.mem_cons, List.not_mem_nil, or_false] at h
  rcases h with rfl | rfl | rfl | rfl
  all_goals decide

theorem begins_equality : (Form.rule .equality).Begins OperatorStart := by
  refine .rule (.longest fun spelling hspelling => ?_)
  simp only [IsEquality, List.mem_cons, List.not_mem_nil, or_false] at hspelling
  rcases hspelling with rfl | rfl
  all_goals exact ⟨_, _, rfl, by simp [OperatorStart]⟩

theorem begins_comparison : (Form.rule .comparison).Begins OperatorStart := by
  refine .rule (.longest fun spelling hspelling => ?_)
  simp only [IsComparison, List.mem_cons, List.not_mem_nil, or_false] at hspelling
  rcases hspelling with rfl | rfl | rfl | rfl | rfl | rfl
  all_goals exact ⟨_, _, rfl, by simp [OperatorStart]⟩

/-! ## Operands and operators -/

/-- Something that can stand beside an operator, whatever it is taken for. -/
def Operand (text rest : List Char) : Prop :=
  Derives (.rule .truthValue) text rest ∨ Derives (.rule .variableName) text rest ∨
    Derives (.rule .number) text rest

/-- A comparison, whatever its operands are taken for. -/
def Operator (text rest : List Char) : Prop :=
  Derives (.rule .equality) text rest ∨ Derives (.rule .comparison) text rest

theorem isWordChar_of_isWordStart {c : Char} (h : isWordStart c = true) : isWordChar c = true := by
  simp only [isWordStart, isWordChar, Char.isAlphanum, Bool.or_eq_true] at h ⊢
  rcases h with halpha | hunderscore
  · exact .inl (.inl halpha)
  · exact .inr hunderscore

/-- Letters and the underscore stand behind the digits in the order of characters. -/
theorem le_toNat_of_isWordStart {c : Char} (h : isWordStart c = true) : 65 ≤ c.toNat := by
  rcases Bool.or_eq_true_iff.mp h with halpha | hunderscore
  · rcases Bool.or_eq_true_iff.mp halpha with hupper | hlower
    · have hA : 'A'.val ≤ c.val := (of_decide_eq_true hupper).1
      exact UInt32.le_iff_toNat_le.mp hA
    · have ha : 'a'.val ≤ c.val := of_decide_eq_true (Bool.and_eq_true_iff.mp hlower).1
      have hcode : 97 ≤ c.toNat := UInt32.le_iff_toNat_le.mp ha
      omega
  · rw [eq_of_beq hunderscore]
    decide

theorem isWordStart_eq_false_of_isDigit {c : Char} (h : c.isDigit = true) :
    isWordStart c = false := by
  rw [← Bool.not_eq_true]
  intro hstart
  have hdigit : c.toNat ≤ 57 := (Char.isDigit_iff_toNat.mp h).2
  have hletter := le_toNat_of_isWordStart hstart
  omega

/-- A word that is complete is the run of name characters at the front. -/
theorem dropWhile_word {letters rest : List Char} (hletters : letters.all isWordChar = true)
    (hend : AtWordEnd rest) : (letters ++ rest).dropWhile isWordChar = rest := by
  rw [List.dropWhile_append_of_pos (List.all_eq_true.mp hletters)]
  cases rest with
  | nil => rfl
  | cons c tail =>
      have hc : ¬ isWordChar c = true := Bool.eq_false_iff.mp (hend c rfl)
      exact List.dropWhile_cons_of_neg hc

theorem dropWhile_name {text rest : List Char} (h : Derives (.rule .variableName) text rest) :
    text.dropWhile isWordChar = rest := by
  obtain ⟨name, hname⟩ := (variableName_reads text rest).mpr (derives_rule_iff.mp h)
  cases text with
  | nil => cases hname
  | cons c tail =>
      rw [readName?] at hname
      split at hname
      · next hstart =>
          cases hname
          exact List.dropWhile_cons_of_pos (isWordChar_of_isWordStart hstart)
      · cases hname

/-- Where a word begins, an operand is the run of name characters, and elsewhere it is a
number. -/
theorem Operand.cases {text rest : List Char} (h : Operand text rest) :
    (∃ c ∈ text.head?, isWordStart c = true) ∧ text.dropWhile isWordChar = rest ∨
      (∀ c ∈ text.head?, isWordStart c = false) ∧ Derives (.rule .number) text rest := by
  have hstart {form : Form} (hform : form.Begins fun c => isWordStart c = true)
      (hrest : Derives form text rest) : ∃ c ∈ text.head?, isWordStart c = true := by
    obtain ⟨c, tail, rfl, hc, -⟩ := hform text rest hrest
    exact ⟨c, rfl, hc⟩
  rcases h with htruth | hname | hnumber
  · refine .inl ⟨hstart begins_truthValue htruth, ?_⟩
    rcases derives_choice_iff.mp (derives_rule_iff.mp htruth) with htrue | hfalse
    · obtain ⟨rfl, hend⟩ := derives_word_iff.mp htrue
      exact dropWhile_word (by decide) hend
    · obtain ⟨rfl, hend⟩ := derives_word_iff.mp hfalse
      exact dropWhile_word (by decide) hend
  · exact .inl ⟨hstart begins_variableName hname, dropWhile_name hname⟩
  · rcases derives_number_iff.mp hnumber with ⟨behind, rfl, -⟩ | ⟨rfl, hend⟩ | hlongest
    · right
      refine ⟨?_, hnumber⟩
      rintro c ⟨⟩
      decide
    · -- The word for infinity is a run of name characters, too.
      left
      exact ⟨⟨'I', rfl, by decide⟩, dropWhile_word (by decide) hend⟩
    · right
      refine ⟨?_, hnumber⟩
      obtain ⟨spelling, hnumeral | ⟨numeral, rfl, -⟩, htext, -⟩ := hlongest
      · obtain ⟨c, tail, rfl, hc⟩ := exists_digit (hnumeral.takeWhile_ne_nil ⟨rest, htext.symm⟩)
        rintro d ⟨⟩
        exact isWordStart_eq_false_of_isDigit hc
      · subst htext
        rintro c ⟨⟩
        decide

theorem Operand.unique {text rest rest' : List Char} (h : Operand text rest)
    (h' : Operand text rest') : rest = rest' := by
  rcases h.cases with ⟨⟨c, hc, hstart⟩, hrest⟩ | ⟨hstart, hnumber⟩
  · rcases h'.cases with ⟨-, hrest'⟩ | ⟨hstart', -⟩
    · exact hrest.symm.trans hrest'
    · rw [hstart' c hc] at hstart
      cases hstart
  · rcases h'.cases with ⟨⟨c, hc, hstart'⟩, -⟩ | ⟨-, hnumber'⟩
    · rw [hstart c hc] at hstart'
      cases hstart'
    · exact number_reads.unique (derives_rule_iff.mp hnumber) (derives_rule_iff.mp hnumber')

theorem Operand.skipGap_eq {text rest : List Char} (h : Operand text rest) :
    skipGap text = text := by
  rcases h with htruth | hname | hnumber
  · exact (begins_truthValue.mono fun _ => solid_of_isWordStart).skipGap_eq htruth
  · exact (begins_variableName.mono fun _ => solid_of_isWordStart).skipGap_eq hname
  · exact (begins_number.mono solid_of_number).skipGap_eq hnumber

/-- The longest comparison with a truth value is also the longest comparison with a
number. -/
theorem Longest.comparison {text rest : List Char} (h : Longest IsEquality text rest) :
    Longest IsComparison text rest := by
  obtain ⟨spelling, hspelling, rfl, -⟩ := h
  simp only [IsEquality, List.mem_cons, List.not_mem_nil, or_false] at hspelling
  refine ⟨spelling, ?_, rfl, ?_⟩
  · rcases hspelling with rfl | rfl
    all_goals simp [IsComparison]
  · intro other hother hfront
    simp only [IsComparison, List.mem_cons, List.not_mem_nil, or_false] at hother
    rcases hspelling with rfl | rfl
    · rcases hother with rfl | rfl | rfl | rfl | rfl | rfl
      all_goals decide
    · rcases hother with rfl | rfl | rfl | rfl | rfl | rfl
      all_goals simp_all [List.cons_prefix_cons]

theorem Operator.longest {text rest : List Char} (h : Operator text rest) :
    Longest IsComparison text rest := by
  rcases h with hequality | hcomparison
  · exact (derives_longest_iff.mp (derives_rule_iff.mp hequality)).comparison
  · exact derives_longest_iff.mp (derives_rule_iff.mp hcomparison)

theorem Operator.unique {text rest rest' : List Char} (h : Operator text rest)
    (h' : Operator text rest') : rest = rest' :=
  h.longest.unique h'.longest

theorem Operator.begins {text rest : List Char} (h : Operator text rest) :
    ∃ c tail, text = c :: tail ∧ OperatorStart c := by
  rcases h with hequality | hcomparison
  · obtain ⟨c, tail, htext, hc, -⟩ := begins_equality text rest hequality
    exact ⟨c, tail, htext, hc⟩
  · obtain ⟨c, tail, htext, hc, -⟩ := begins_comparison text rest hcomparison
    exact ⟨c, tail, htext, hc⟩

theorem Operator.skipGap_eq {text rest : List Char} (h : Operator text rest) :
    skipGap text = text := by
  obtain ⟨c, tail, rfl, hc⟩ := h.begins
  exact hc.solid.skipGap_cons tail

/-! ## Readings of a condition -/

/-- Two operands with an operator between them. -/
def Compared (text last : List Char) : Prop :=
  ∃ left before behind right, Operand text left ∧ Gap left before ∧ Operator before behind ∧
    Gap behind right ∧ Operand right last

/-- All readings of a comparison end at the same place. -/
theorem Compared.unique {text last last' : List Char} (h : Compared text last)
    (h' : Compared text last') : last = last' := by
  obtain ⟨left, before, behind, right, hleft, hgap, hoperator, hgap', hright⟩ := h
  obtain ⟨left₂, before₂, behind₂, right₂, hleft₂, hgap₂, hoperator₂, hgap'₂, hright₂⟩ := h'
  -- From left to right: equal places, equal words, and the same place behind the gap.
  obtain rfl := hleft.unique hleft₂
  have hbefore : before = before₂ := by
    rw [← hoperator.skipGap_eq, ← hoperator₂.skipGap_eq, ← hgap.skipGap_eq, hgap₂.skipGap_eq]
  subst hbefore
  obtain rfl := hoperator.unique hoperator₂
  have hbehind : right = right₂ := by
    rw [← hright.skipGap_eq, ← hright₂.skipGap_eq, ← hgap'.skipGap_eq, hgap'₂.skipGap_eq]
  subst hbehind
  exact hright.unique hright₂

/-- A membership is not a comparison. -/
theorem Compared.not_membership {text last last' : List Char} (h : Compared text last) :
    ¬ Derives (.rule .membership) text last' := by
  intro hmember
  obtain ⟨left, before, behind, right, hleft, hgap, hoperator, -, -⟩ := h
  obtain ⟨left₂, before₂, hname, hgap₂, hrest⟩ :=
    derives_sequence_iff.mp (derives_rule_iff.mp hmember)
  obtain ⟨behind₂, -, hin, -, -⟩ := derives_sequence_iff.mp hrest
  obtain rfl := hleft.unique (.inr (.inl hname))
  have hin_skip : skipGap before₂ = before₂ :=
    (begins_inWord.mono (forall_eq.mpr (by decide))).skipGap_eq hin
  have hbefore : before = before₂ := by
    rw [← hoperator.skipGap_eq, ← hin_skip, ← hgap.skipGap_eq, hgap₂.skipGap_eq]
  subst hbefore
  -- Now an operator and the word `in` stand at the same place.
  obtain ⟨c, tail, htext, hc⟩ := hoperator.begins
  obtain ⟨d, tail', htext', rfl, -⟩ := begins_inWord before behind₂ hin
  rw [htext] at htext'
  cases htext'
  revert hc
  simp [OperatorStart]

theorem compared_of_derives {first operator second : Form}
    (hfirst : ∀ text rest, Derives first text rest → Operand text rest)
    (hoperator : ∀ text rest, Derives operator text rest → Operator text rest)
    (hsecond : ∀ text rest, Derives second text rest → Operand text rest) {text last : List Char}
    (h : Derives (.sequence first (.sequence operator second)) text last) : Compared text last := by
  obtain ⟨left, before, hleft, hgap, hrest⟩ := derives_sequence_iff.mp h
  obtain ⟨behind, right, hsign, hgap', hright⟩ := derives_sequence_iff.mp hrest
  exact ⟨left, before, behind, right, hfirst _ _ hleft, hgap, hoperator _ _ hsign, hgap',
    hsecond _ _ hright⟩

theorem compared_of_truthFirst {text last : List Char} (h : Derives (.rule .truthFirst) text last) :
    Compared text last :=
  compared_of_derives (fun _ _ => .inl) (fun _ _ => .inl) (fun _ _ h => .inr (.inl h))
    (derives_rule_iff.mp h)

theorem compared_of_truthLast {text last : List Char} (h : Derives (.rule .truthLast) text last) :
    Compared text last :=
  compared_of_derives (fun _ _ h => .inr (.inl h)) (fun _ _ => .inl) (fun _ _ => .inl)
    (derives_rule_iff.mp h)

theorem compared_of_numberFirst {text last : List Char}
    (h : Derives (.rule .numberFirst) text last) : Compared text last :=
  compared_of_derives (fun _ _ h => .inr (.inr h)) (fun _ _ => .inr) (fun _ _ h => .inr (.inl h))
    (derives_rule_iff.mp h)

theorem compared_of_numberLast {text last : List Char} (h : Derives (.rule .numberLast) text last) :
    Compared text last :=
  compared_of_derives (fun _ _ h => .inr (.inl h)) (fun _ _ => .inr) (fun _ _ h => .inr (.inr h))
    (derives_rule_iff.mp h)

/-! ## The parsers of conditions -/

namespace Parser

theorem truthFirst_sound : truthFirst.Sound (.rule .truthFirst) :=
  .rule (truthValue_sound.bind fun _ => equality_sound.bind fun _ => variableName_sound.map _)

theorem truthLast_sound : truthLast.Sound (.rule .truthLast) :=
  .rule (variableName_sound.bind fun _ => equality_sound.bind fun _ => truthValue_sound.map _)

theorem numberFirst_sound : numberFirst.Sound (.rule .numberFirst) :=
  .rule (number_sound.bind fun _ => comparison_sound.bind fun _ => variableName_sound.map _)

theorem numberLast_sound : numberLast.Sound (.rule .numberLast) :=
  .rule (variableName_sound.bind fun _ => comparison_sound.bind fun _ => number_sound.map _)

theorem interval_sound : interval.Sound (.rule .interval) :=
  .rule (lowerBracket_sound.bind fun _ => number_sound.bind fun _ => (literal_sound _).bind fun _ =>
    number_sound.bind fun _ => upperBracket_sound.map _)

theorem membership_sound : membership.Sound (.rule .membership) :=
  .rule (variableName_sound.bind fun name => inWord_sound.bind fun _ =>
    interval_sound.map fun found => Condition.membership name found.1 found.2)

theorem condition_sound : condition.Sound .condition :=
  truthFirst_sound.orElse (truthLast_sound.orElse (numberFirst_sound.orElse
    (numberLast_sound.orElse membership_sound)))

theorem conditions_sound : conditions.Sound (.rule .conditions) :=
  .rule (condition_sound.bind fun _ =>
    (Sound.many ((literal_sound _).bind fun _ => condition_sound)).map _)

theorem guard_sound : guard.Sound .guard :=
  (literal_sound _).bind fun _ => conditions_sound.bind fun _ => (literal_sound _).map _

section

variable {bound : Nat} {follow : List Char → Prop}

theorem truthValue_complete : Complete bound follow truthValue (.rule .truthValue) :=
  .named truthValue_reads (begins_truthValue.mono fun _ => solid_of_isWordStart)

theorem variableName_complete : Complete bound follow variableName (.rule .variableName) :=
  .named variableName_reads (begins_variableName.mono fun _ => solid_of_isWordStart)

theorem number_complete : Complete bound follow number (.rule .number) :=
  .named number_reads (begins_number.mono solid_of_number)

theorem equality_complete : Complete bound follow equality (.rule .equality) :=
  .named equality_reads (begins_equality.mono OperatorStart.solid)

theorem comparison_complete : Complete bound follow comparison (.rule .comparison) :=
  .named comparison_reads (begins_comparison.mono OperatorStart.solid)

theorem truthFirst_complete : Complete bound follow truthFirst (.rule .truthFirst) :=
  .rule (truthValue_complete.then fun _ => equality_complete.then fun _ =>
    variableName_complete.map _)

theorem truthLast_complete : Complete bound follow truthLast (.rule .truthLast) :=
  .rule (variableName_complete.then fun _ => equality_complete.then fun _ =>
    truthValue_complete.map _)

theorem numberFirst_complete : Complete bound follow numberFirst (.rule .numberFirst) :=
  .rule (number_complete.then fun _ => comparison_complete.then fun _ =>
    variableName_complete.map _)

theorem numberLast_complete : Complete bound follow numberLast (.rule .numberLast) :=
  .rule (variableName_complete.then fun _ => comparison_complete.then fun _ =>
    number_complete.map _)

theorem begins_bracket {a b : Char} (ha : Solid a) (hb : Solid b) :
    (Form.choice (.symbol [a]) (.symbol [b])).Begins Solid :=
  .choice ((Begins.symbol a []).mono (forall_eq.mpr ha))
    ((Begins.symbol b []).mono (forall_eq.mpr hb))

theorem interval_complete : Complete bound follow interval (.rule .interval) := by
  have hlower : Complete bound Anyhow lowerBracket (.rule .lowerBracket) :=
    .named (bracket_reads (by decide) true false) (.rule (begins_bracket (by decide) (by decide)))
  have hupper : Complete bound follow upperBracket (.rule .upperBracket) :=
    .named (bracket_reads (by decide) true false) (.rule (begins_bracket (by decide) (by decide)))
  exact .rule (hlower.then fun _ => number_complete.then fun _ =>
    (literal_complete (by decide) _).then fun _ => number_complete.then fun _ => hupper.map _)

theorem membership_complete : Complete bound follow membership (.rule .membership) := by
  have hin : Complete bound Anyhow inWord (.rule .inWord) := .rule (word_complete (by decide) _)
  exact .rule (variableName_complete.then fun name => hin.then fun _ =>
    interval_complete.map fun found => Condition.membership name found.1 found.2)

/-- A comparison that is tried before other readings of a condition stops where they
would. -/
theorem agree_of_compared {p : Parser Condition} {first second : Form} (hsound : p.Sound first)
    (hfirst : ∀ text last, Derives first text last → Compared text last)
    (hsecond : ∀ text last, Derives second text last →
      Compared text last ∨ Derives (.rule .membership) text last)
    (text last : List Char) (hlast : Derives second text last) (a : Condition)
    (rest : List Char) (hrun : p.run (skipGap text) = some (a, rest)) : rest = skipGap last := by
  obtain ⟨last', hlast', rfl⟩ := hsound text a rest hrun
  rcases hsecond text last hlast with hcompared | hmember
  · obtain ⟨left, _, _, _, hleft, -⟩ := id hcompared
    rw [hleft.skipGap_eq] at hlast'
    rw [(hfirst text last' hlast').unique hcompared]
  · have hbegins : (Form.rule .membership).Begins Solid :=
      .rule (.sequence (begins_variableName.mono fun _ => solid_of_isWordStart))
    rw [hbegins.skipGap_eq hmember] at hlast'
    exact absurd hmember (hfirst text last' hlast').not_membership

theorem condition_complete : Complete bound follow condition .condition := by
  have hmember : ∀ text last, Derives (.rule .membership) text last →
      Compared text last ∨ Derives (.rule .membership) text last := fun _ _ => .inr
  -- Each form is a comparison or a membership; so is a choice between two that are.
  have hchoice {first second : Form}
      (hfirst : ∀ text last, Derives first text last → Compared text last)
      (hsecond : ∀ text last, Derives second text last →
        Compared text last ∨ Derives (.rule .membership) text last) :
      ∀ text last, Derives (.choice first second) text last →
        Compared text last ∨ Derives (.rule .membership) text last := by
    intro text last h
    rcases derives_choice_iff.mp h with h | h
    · exact .inl (hfirst text last h)
    · exact hsecond text last h
  have hfourth := hchoice (fun _ _ => compared_of_numberLast) hmember
  have hthird := hchoice (fun _ _ => compared_of_numberFirst) hfourth
  have hsecond := hchoice (fun _ _ => compared_of_truthLast) hthird
  refine truthFirst_complete.orElse (truthLast_complete.orElse (numberFirst_complete.orElse
    (numberLast_complete.orElse membership_complete ?_) ?_) ?_) ?_
  · intro text last hlast _
    exact agree_of_compared numberLast_sound (fun _ _ => compared_of_numberLast) hmember text last
      hlast
  · intro text last hlast _
    exact agree_of_compared numberFirst_sound (fun _ _ => compared_of_numberFirst) hfourth text last
      hlast
  · intro text last hlast _
    exact agree_of_compared truthLast_sound (fun _ _ => compared_of_truthLast) hthird text last
      hlast
  · intro text last hlast _
    exact agree_of_compared truthFirst_sound (fun _ _ => compared_of_truthFirst) hsecond text last
      hlast

theorem conditions_complete :
    Complete bound (Avoids (· = '&')) conditions (.rule .conditions) := by
  have hsign : (Form.inOrder [.symbol ['&', '&'], .condition]).Begins (· = '&') :=
    .sequence (.symbol '&' ['&'])
  have hmore : Sound (literal ['&', '&'] >>= fun _ => condition)
      (.inOrder [.symbol ['&', '&'], .condition]) :=
    (literal_sound _).bind fun _ => condition_sound
  have hcomplete : Complete bound Anyhow (literal ['&', '&'] >>= fun _ => condition)
      (.inOrder [.symbol ['&', '&'], .condition]) :=
    (literal_complete (by decide) _).then fun _ => condition_complete
  refine .rule (condition_complete.then fun _ => (hcomplete.many ?_ ?_ ?_ ?_).map _)
  · exact hsign.mono (forall_eq.mpr (by decide))
  · exact fun text htext => hmore.run_eq_none hsign htext
  · exact fun _ _ _ => trivial
  · exact fun _ _ => trivial

theorem guard_complete : Complete bound follow guard .guard := by
  refine (literal_complete (by decide) _).then fun _ => conditions_complete.bind
    (fun _ => (literal_complete (by decide) _).map _) ?_
  intro text last hlast _
  refine ((Begins.symbol ')' []).opens (forall_eq.mpr (by decide)) hlast).avoids ?_
  rintro _ rfl
  decide

end

end Parser
end DecisionTuples
