import DecisionTuples.Grammar.Parse
import DecisionTuples.Proofs.Grammar.Condition

/-!
# The texts that are read are those that follow the grammar

`Feature.parse_readable_iff` says that a text is refused as unreadable exactly if it has
no derivation.  Trying alternatives in order, repeating as often as possible and never
going back loses nothing, for these reasons:

* a number type is never followed by a parenthesis, so a precision is part of it;
* a decision is never followed by a brace or by `else`, so what can be its body or its
  alternative is;
* the closing alternative is told from the others by what stands behind its `else`
  (`not_closing_of_alternative`);
* statements begin with different characters.

Decisions and features nest, so both directions go by induction on the depth that the
parsers allow; every level takes at least one character.
-/

namespace DecisionTuples
namespace Parser

open Form

/-! ## Soundness -/

theorem preciseType_sound : Sound (rule .preciseType do
    literal ['n', 'u', 'm']
    literal ['(']
    let digits ← precision
    literal [')']
    return TypeExpr.numWith digits) (.rule .preciseType) :=
  .rule ((literal_sound _).bind fun _ => (literal_sound _).bind fun _ => precision_sound.bind
    fun _ => (literal_sound _).map _)

theorem typeExpr_sound : typeExpr.Sound
    (.oneOf [.rule .boolType, .rule .intType, .rule .preciseType, .rule .numType]) := by
  refine .orElse (.rule ?_) (.orElse (.rule ?_) (preciseType_sound.orElse (.rule ?_)))
  · exact (literal_sound _).map _
  · exact (literal_sound _).map _
  · exact (literal_sound _).map _

theorem declaration_sound : declaration.Sound (.rule .declaration) :=
  .rule (varWord_sound.bind fun _ => variableName_sound.bind fun _ => (literal_sound _).bind
    fun _ => typeExpr_sound.map _)

section

variable {inner : Parser Decision}

theorem block_sound (h : inner.Sound (.rule .decision)) : (block inner).Sound .block :=
  (literal_sound _).bind fun _ => h.many.bind fun _ => (literal_sound _).map _

theorem body_sound (h : inner.Sound (.rule .decision)) : (body inner).Sound (.rule .body) :=
  .rule (block_sound h)

theorem alternative_sound (h : inner.Sound (.rule .decision)) :
    (alternative inner).Sound (.rule .alternative) :=
  .rule (elseWord_sound.bind fun _ => ifWord_sound.bind fun _ => guard_sound.bind fun _ =>
    (body_sound h).optional.map _)

theorem closing_sound (h : inner.Sound (.rule .decision)) :
    (closing inner).Sound (.rule .closing) :=
  .rule (elseWord_sound.bind fun _ => block_sound h)

end

theorem decision_sound (depth : Nat) : (decision depth).Sound (.rule .decision) := by
  induction depth with
  | zero => exact .fail
  | succ depth ih =>
      exact .rule (ifWord_sound.bind fun _ => guard_sound.bind fun _ =>
        (body_sound ih).optional.bind fun _ => (alternative_sound ih).many.bind fun _ =>
          (closing_sound ih).optional.map _)

theorem item_sound {depth : Nat} {inner : Parser (List Item)} (h : inner.Sound (.rule .feature)) :
    (item depth inner).Sound .item :=
  declaration_sound.orElse (((decision_sound depth).map _).orElse (h.map _))

theorem feature_sound (depth : Nat) : (feature depth).Sound (.rule .feature) := by
  induction depth with
  | zero => exact .fail
  | succ depth ih =>
      exact .rule ((literal_sound _).bind fun _ => (item_sound ih).many1.bind fun _ =>
        (literal_sound _).map _)

/-! ## Types and declarations -/

variable {bound : Nat}

theorem begins_declaration : (Form.rule .declaration).Begins (· = 'v') :=
  .rule (.sequence begins_varWord)

theorem begins_numType : (Form.rule .numType).Begins (· = 'n') := .rule (.symbol _ _)

theorem begins_preciseType : (Form.rule .preciseType).Begins (· = 'n') :=
  .rule (.sequence (.symbol _ _))

/-- A number type with a precision is not the type without one and something else behind
it, unless that begins with a parenthesis. -/
theorem not_preciseType {text last last' : List Char} (h : Derives (.rule .numType) text last)
    (hlast : Avoids (· = '(') (skipGap last)) : ¬ Derives (.rule .preciseType) text last' := by
  intro hprecise
  obtain ⟨middle, next, hnum, hgap, hrest⟩ := derives_sequence_iff.mp (derives_rule_iff.mp hprecise)
  have hmiddle : last = middle := (symbol_reads _).unique (derives_rule_iff.mp h) hnum
  have hopen : (Form.inOrder [.symbol ['('], .rule .precision, .symbol [')']]).Begins (· = '(') :=
    .sequence (.symbol _ _)
  obtain ⟨c, hc, rfl⟩ := hopen.opens (forall_eq.mpr (by decide)) hrest
  rw [hmiddle, hgap.skipGap_eq] at hlast
  exact hlast '(' hc rfl

theorem preciseType_complete {follow : List Char → Prop} :
    Complete bound follow (rule .preciseType do
      literal ['n', 'u', 'm']
      literal ['(']
      let digits ← precision
      literal [')']
      return TypeExpr.numWith digits) (.rule .preciseType) := by
  have hprecision : Complete bound Anyhow precision (.rule .precision) :=
    .named precision_reads begins_precision
  exact .rule ((literal_complete (by decide) _).then fun _ =>
    (literal_complete (by decide) _).then fun _ => hprecision.then fun _ =>
      (literal_complete (by decide) _).map _)

theorem typeExpr_complete : Complete bound (Avoids (· = '(')) typeExpr
    (.oneOf [.rule .boolType, .rule .intType, .rule .preciseType, .rule .numType]) := by
  have hint : (Form.rule .intType).Begins (· = 'i') := .rule (.symbol _ _)
  have hnum : (Form.choice (.rule .preciseType) (.rule .numType)).Begins (· = 'n') :=
    begins_preciseType.choice begins_numType
  have hnumber : (Form.choice (.rule .intType)
      (.choice (.rule .preciseType) (.rule .numType))).Begins fun c => c = 'i' ∨ c = 'n' :=
    (hint.mono fun _ => .inl).choice (hnum.mono fun _ => .inr)
  -- Only the two number types begin alike; there the parenthesis decides.
  refine .orElse_of_disjoint (.rule ((literal_complete (by decide) _).map _))
    (.orElse_of_disjoint (.rule ((literal_complete (by decide) _).map _))
      (preciseType_complete.orElse (.rule ((literal_complete (by decide) _).map _)) ?_)
      (.rule ((literal_sound _).map _)) hint hnum (forall_eq.mpr (by decide)) ?_)
    (.rule ((literal_sound _).map _)) (.rule (.symbol 'b' _)) hnumber ?_ ?_
  · -- The type with a precision cannot have been read if a type without one is derived.
    intro text last hlast hfollow digits rest hrun
    obtain ⟨last', hlast', -⟩ := preciseType_sound text digits rest hrun
    rw [(begins_numType.mono (forall_eq.mpr (by decide))).skipGap_eq hlast] at hlast'
    exact absurd hlast' (not_preciseType hlast hfollow)
  · rintro _ rfl
    decide
  · rintro c (rfl | rfl)
    all_goals decide
  · rintro c (rfl | rfl)
    all_goals decide

theorem declaration_complete :
    Complete bound (Avoids (· = '(')) declaration (.rule .declaration) := by
  have hvar : Complete bound Anyhow varWord (.rule .varWord) := .rule (word_complete (by decide) _)
  exact .rule (hvar.then fun _ => variableName_complete.then fun _ =>
    (literal_complete (by decide) _).then fun _ => typeExpr_complete.map _)

/-! ## Decisions -/

theorem ifWord_complete {follow : List Char → Prop} :
    Complete bound follow ifWord (.rule .ifWord) :=
  .rule (word_complete (by decide) _)

theorem elseWord_complete {follow : List Char → Prop} :
    Complete bound follow elseWord (.rule .elseWord) :=
  .rule (word_complete (by decide) _)

theorem begins_decision : (Form.rule .decision).Begins (· = 'i') := .rule (.sequence begins_ifWord)

theorem begins_block : Form.block.Begins (· = '\x7b') := .sequence (.symbol _ _)

theorem begins_body : (Form.rule .body).Begins (· = '\x7b') := .rule begins_block

theorem begins_alternative : (Form.rule .alternative).Begins (· = 'e') :=
  .rule (.sequence begins_elseWord)

theorem begins_closing : (Form.rule .closing).Begins (· = 'e') :=
  .rule (.sequence begins_elseWord)

/-- Neither a brace nor an alternative follows. -/
def NoTail : List Char → Prop := Avoids fun c => c = '\x7b' ∨ c = 'e'

/-- Behind the last alternative with conditions there is the closing one, or nothing
that belongs to the decision. -/
def LastTail (text : List Char) : Prop :=
  NoTail text ∨ ∃ last, Derives (.rule .closing) text last

/-- What stands behind `else` tells the two kinds of alternatives apart. -/
theorem not_closing_of_alternative {text last last' : List Char}
    (h : Derives (.rule .alternative) text last) : ¬ Derives (.rule .closing) text last' := by
  intro hclosing
  obtain ⟨middle, next, helse, hgap, hrest⟩ := derives_sequence_iff.mp (derives_rule_iff.mp h)
  obtain ⟨middle₂, next₂, helse₂, hgap₂, hblock⟩ :=
    derives_sequence_iff.mp (derives_rule_iff.mp hclosing)
  have hmiddle : middle = middle₂ :=
    (word_reads _).unique (derives_rule_iff.mp helse) (derives_rule_iff.mp helse₂)
  obtain ⟨c, hc, rfl⟩ := (Begins.sequence begins_ifWord).opens (forall_eq.mpr (by decide)) hrest
  obtain ⟨d, hd, rfl⟩ := begins_block.opens (forall_eq.mpr (by decide)) hblock
  rw [← hgap.skipGap_eq, hmiddle, hgap₂.skipGap_eq] at hc
  exact absurd (Option.mem_unique hc hd) (by decide)

theorem LastTail.avoids {text : List Char} (h : LastTail text) : Avoids (· = '\x7b') text := by
  rcases h with hnone | ⟨last, hclosing⟩
  · exact fun c hc heq => hnone c hc (.inl heq)
  · obtain ⟨c, tail, rfl, rfl, -⟩ := begins_closing text last hclosing
    rintro d ⟨⟩
    decide

theorem avoids_of_alternative (text last : List Char) (h : Derives (.rule .alternative) text last) :
    Avoids (· = '\x7b') (skipGap text) := by
  refine (begins_alternative.opens (forall_eq.mpr (by decide)) h).avoids ?_
  rintro _ rfl
  decide

theorem lastTail_of_optionally {text last : List Char}
    (h : Derives (.optionally (.rule .closing)) text last) (hlast : NoTail (skipGap last)) :
    LastTail (skipGap text) := by
  rcases derives_optionally_iff.mp h with rfl | hclosing
  · exact .inl hlast
  · rw [(begins_closing.mono (forall_eq.mpr (by decide))).skipGap_eq hclosing]
    exact .inr ⟨last, hclosing⟩

section

variable {inner : Parser Decision} (hsound : inner.Sound (.rule .decision))
  (hinner : Complete bound NoTail inner (.rule .decision))

include hsound hinner

theorem block_complete {follow : List Char → Prop} :
    Complete bound follow (block inner) .block := by
  have hmany : Complete bound (Opens (· = '\x7d')) (many inner) (.repeated (.rule .decision)) := by
    refine hinner.many (begins_decision.mono (forall_eq.mpr (by decide))) ?_ ?_ ?_
    · intro text htext
      refine hsound.run_eq_none begins_decision (htext.avoids ?_)
      rintro _ rfl
      decide
    · intro text last hlast
      refine (begins_decision.opens (forall_eq.mpr (by decide)) hlast).avoids ?_
      rintro _ rfl
      decide
    · intro text htext
      refine htext.avoids ?_
      rintro _ rfl
      decide
  refine (literal_complete (by decide) _).then fun _ => hmany.bind
    (fun _ => (literal_complete (by decide) _).map _) ?_
  intro text last hlast _
  exact (Begins.symbol '\x7d' []).opens (forall_eq.mpr (by decide)) hlast

theorem body_complete {follow : List Char → Prop} :
    Complete bound follow (body inner) (.rule .body) :=
  .rule (block_complete hsound hinner)

/-- A body may be left out where no brace follows. -/
theorem optional_body_complete :
    Complete bound (Avoids (· = '\x7b')) (optional (body inner)) (.optionally (.rule .body)) :=
  (body_complete hsound hinner).optional fun _ htext =>
    (body_sound hsound).run_eq_none begins_body htext

theorem alternative_complete :
    Complete bound (Avoids (· = '\x7b')) (alternative inner) (.rule .alternative) :=
  .rule (elseWord_complete.then fun _ => ifWord_complete.then fun _ => guard_complete.then
    fun _ => (optional_body_complete hsound hinner).map _)

theorem closing_complete {follow : List Char → Prop} :
    Complete bound follow (closing inner) (.rule .closing) :=
  .rule (elseWord_complete.then fun _ => block_complete hsound hinner)

omit hinner in
/-- Behind the last alternative with conditions no further one is read: none begins there,
or a closing one does instead. -/
theorem alternative_run_eq_none {text : List Char} (htext : LastTail (skipGap text)) :
    (alternative inner).run (skipGap text) = none := by
  rcases htext with hnone | ⟨last, hclosing⟩
  · exact (alternative_sound hsound).run_eq_none begins_alternative
      fun c hc heq => hnone c hc (.inr heq)
  · rw [Option.eq_none_iff_forall_ne_some]
    rintro ⟨found, rest⟩ hrun
    obtain ⟨last', hlast', -⟩ := alternative_sound hsound text found rest hrun
    exact not_closing_of_alternative hlast' hclosing

/-- As many alternatives with conditions are read as there are. -/
theorem alternatives_complete :
    Complete bound LastTail (many (alternative inner)) (.repeated (.rule .alternative)) :=
  (alternative_complete hsound hinner).many
    (begins_alternative.mono (forall_eq.mpr (by decide)))
    (fun _ htext => alternative_run_eq_none hsound htext) avoids_of_alternative
    fun _ htext => htext.avoids

/-- The closing alternative may be left out where no alternative follows. -/
theorem optional_closing_complete :
    Complete bound NoTail (optional (closing inner)) (.optionally (.rule .closing)) :=
  (closing_complete hsound hinner).optional fun _ htext =>
    (closing_sound hsound).run_eq_none begins_closing fun c hc heq => htext c hc (.inr heq)

end

theorem decision_complete (depth : Nat) :
    Complete depth NoTail (decision depth) (.rule .decision) := by
  induction depth with
  | zero => exact fun _ _ hlength => absurd hlength (Nat.not_lt_zero _)
  | succ depth ih =>
      have hsound := decision_sound depth
      -- What follows the decision tells what follows each of its parts, from the last one on.
      refine .rule (ifWord_complete.step begins_ifWord fun _ => guard_complete.then fun _ =>
        (optional_body_complete hsound ih).bind (fun _ => (alternatives_complete hsound ih).bind
          (fun _ => (optional_closing_complete hsound ih).map _) ?_) ?_)
      · intro text last hlast hfollow
        exact lastTail_of_optionally hlast hfollow
      · intro text last hlast hfollow
        obtain ⟨middle, next, halternatives, hgap, hclosing⟩ := derives_sequence_iff.mp hlast
        have htail := lastTail_of_optionally hclosing hfollow
        rw [← hgap.skipGap_eq] at htail
        exact follow_repeated avoids_of_alternative (fun _ htext => htext.avoids) halternatives
          htail

/-! ## Features -/

/-- The characters with which statements begin. -/
def ItemStart (c : Char) : Prop := c = 'v' ∨ c = 'i' ∨ c = '['

theorem ItemStart.solid (c : Char) (h : ItemStart c) : Solid c := by
  rcases h with rfl | rfl | rfl
  all_goals decide

/-- No statement goes on behind its end. -/
def ItemEnd : List Char → Prop := Avoids fun c => c = '(' ∨ c = '\x7b' ∨ c = 'e'

theorem begins_feature : (Form.rule .feature).Begins (· = '[') := .rule (.sequence (.symbol _ _))

theorem begins_item : Form.item.Begins ItemStart :=
  .choice (begins_declaration.mono fun _ => .inl)
    (.choice (begins_decision.mono fun _ h => .inr (.inl h))
      (begins_feature.mono fun _ h => .inr (.inr h)))

theorem itemEnd_of_item {text last : List Char} (h : Derives .item text last) :
    ItemEnd (skipGap text) := by
  refine (begins_item.opens ItemStart.solid h).avoids ?_
  rintro c (rfl | rfl | rfl)
  all_goals decide

theorem item_complete {depth : Nat} {inner : Parser (List Item)}
    (hinner : Complete depth Anyhow inner (.rule .feature)) :
    Complete depth ItemEnd (item depth inner) .item := by
  have hdeclaration : Complete depth ItemEnd declaration (.rule .declaration) :=
    declaration_complete.mono fun _ htext c hc heq => htext c hc (.inl heq)
  have hdecision : Complete depth ItemEnd (decision depth) (.rule .decision) :=
    (decision_complete depth).mono fun _ htext c hc heq => htext c hc (.inr heq)
  have hfeature : Complete depth ItemEnd inner (.rule .feature) :=
    hinner.mono fun _ _ => trivial
  have hlater : (Form.choice (.rule .decision) (.rule .feature)).Begins
      fun c => c = 'i' ∨ c = '[' :=
    .choice (begins_decision.mono fun _ => .inl) (begins_feature.mono fun _ => .inr)
  refine .orElse_of_disjoint hdeclaration (.orElse_of_disjoint (hdecision.map _) (hfeature.map _)
    ((decision_sound depth).map _) begins_decision begins_feature (forall_eq.mpr (by decide)) ?_)
    declaration_sound begins_declaration hlater ?_ ?_
  · rintro _ rfl
    decide
  · rintro c (rfl | rfl)
    all_goals decide
  · rintro c (rfl | rfl)
    all_goals decide

theorem feature_complete (depth : Nat) :
    Complete depth Anyhow (feature depth) (.rule .feature) := by
  induction depth with
  | zero => exact fun _ _ hlength => absurd hlength (Nat.not_lt_zero _)
  | succ depth ih =>
      have hitems : Complete depth (Opens (· = ']')) (many1 (item depth (feature depth)))
          (.repeated1 .item) := by
        refine (item_complete ih).many1 (begins_item.mono ItemStart.solid) ?_
          (fun _ _ => itemEnd_of_item) ?_
        · intro text htext
          refine (item_sound (feature_sound depth)).run_eq_none begins_item (htext.avoids ?_)
          rintro _ rfl
          unfold ItemStart
          decide
        · intro text htext
          refine htext.avoids ?_
          rintro _ rfl
          decide
      refine .rule ((literal_complete (by decide) _).step (.symbol '[' []) fun _ =>
        hitems.bind (fun _ => (literal_complete (by decide) _).map _) ?_)
      intro text last hlast _
      exact (Begins.symbol ']' []).opens (forall_eq.mpr (by decide)) hlast

/-! ## Whole texts -/

theorem endOfInput_run (text : List Char) :
    endOfInput.run text = if text.isEmpty then some ((), text) else none := rfl

theorem gap_run (text : List Char) : gap.run text = some ((), skipGap text) := rfl

/-- A whole text is a feature behind the gap at its front, and nothing behind the
feature. -/
theorem source_run (text : List Char) :
    (source text.length).run text =
      ((feature (text.length + 1)).run (skipGap text)).bind fun found =>
        if found.2.isEmpty then some found else none := by
  unfold source file
  simp only [run_rule, run_bind, gap_run, endOfInput_run, run_pure, Option.bind_some]
  refine congrArg _ (funext fun found => ?_)
  split <;> rfl

theorem source_run_isSome (text : List Char) :
    ((source text.length).run text).isSome ↔
      ∃ items, (feature (text.length + 1)).run (skipGap text) = some (items, []) := by
  rw [source_run]
  constructor
  · intro h
    cases hrun : (feature (text.length + 1)).run (skipGap text) with
    | none =>
        rw [hrun] at h
        cases h
    | some found =>
        obtain ⟨items, rest⟩ := found
        rw [hrun] at h
        cases rest with
        | nil => exact ⟨items, rfl⟩
        | cons c rest => cases h
  · rintro ⟨items, hrun⟩
    rw [hrun]
    rfl

/-- A text follows the grammar if a feature stands between two gaps. -/
theorem followsGrammar_iff (text : List Char) :
    FollowsGrammar text ↔ ∃ front last,
      Gap text front ∧ Derives (.rule .feature) front last ∧ Gap last [] := by
  unfold FollowsGrammar
  constructor
  · intro h
    obtain ⟨start, front, hstart, hfront, hrest⟩ :=
      derives_sequence_iff.mp (derives_rule_iff.mp h)
    obtain ⟨last, next, hfeature, hlast, hfinish⟩ := derives_sequence_iff.mp hrest
    cases hstart
    cases derives_rule_iff.mp hfinish
    exact ⟨front, last, hfront, hfeature, hlast⟩
  · rintro ⟨front, last, hfront, hfeature, hlast⟩
    exact .rule (.sequence (.nothing text) hfront (.sequence hfeature hlast (.rule .finish)))

/-- A text is read as a whole exactly if it follows the grammar. -/
theorem source_run_isSome_iff (text : List Char) :
    ((source text.length).run text).isSome ↔ FollowsGrammar text := by
  rw [source_run_isSome, followsGrammar_iff]
  constructor
  · rintro ⟨items, hrun⟩
    obtain ⟨last, hfeature, hlast⟩ := feature_sound _ text items [] hrun
    have hgap : Gap last [] := by
      rw [hlast]
      exact gap_skipGap last
    exact ⟨skipGap text, last, gap_skipGap text, hfeature, hgap⟩
  · rintro ⟨front, last, hfront, hfeature, hlast⟩
    -- Every level of nesting takes a character, so the length of the text is deep enough.
    have hdepth : front.length < text.length + 1 := Nat.lt_succ_of_le hfront.length_le
    obtain ⟨items, hrun⟩ := feature_complete _ front last hdepth hfeature trivial
    rw [← hfront.skipGap_eq, hlast.skipGap_eq] at hrun
    exact ⟨items, hrun⟩

end Parser

/-- A text is refused as unreadable exactly if it is not read as a whole, and the report is the
one about this text. -/
theorem Feature.parse_eq_unreadable_iff {text : List Char} {report : Report} :
    Feature.parse text = .error (.unreadable report) ↔
      (Parser.source text.length).run text = none ∧ report = .of text := by
  unfold Feature.parse
  cases (Parser.source text.length).run text with
  | none => simp [eq_comm]
  | some found => cases hitems : Feature.ofItems found.1 <;> simp [hitems, Except.mapError]

/-- **The parser accepts exactly its grammar.**  A text is not refused as unreadable
exactly if it has a derivation. -/
theorem Feature.parse_readable_iff (text : List Char) :
    (∀ report, Feature.parse text ≠ .error (.unreadable report)) ↔ FollowsGrammar text := by
  rw [← Parser.source_run_isSome_iff]
  unfold Feature.parse
  cases (Parser.source text.length).run text with
  | none =>
      constructor
      · intro h
        exact absurd rfl (h (.of text))
      · intro h
        cases h
  | some found =>
      constructor
      · intro _
        rfl
      · intro _ report herror
        change (Feature.ofItems found.1).mapError ParseError.precision = _ at herror
        -- What is left to refuse is a precision that is not greater than zero.
        cases hitems : Feature.ofItems found.1 with
        | ok feature =>
            rw [hitems] at herror
            cases herror
        | error literal =>
            rw [hitems] at herror
            cases herror

end DecisionTuples
