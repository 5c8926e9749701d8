import DecisionTuples.Proofs.Grammar.Agreement
import DecisionTuples.Proofs.Grammar.Settling

/-!
# The two ways in which reading fails

`Feature.parse_fails_in_two_ways` says what becomes of any text.  It is unreadable if it does
not follow the grammar.  Otherwise it has syntax trees, and they all lead to the same end: the
first precision in the text that is not greater than zero is refused, and where there is none,
a well-formed feature is read.

A text can have several syntax trees, because a condition can be derived in several ways.
Their precisions are the same (`SyntaxTree.precisions_eq`): conditions have none, and outside
of conditions the next character tells what a text is derived as, as it does when the text is
read.
-/

namespace DecisionTuples

open Node

/-! ## Precisions do not depend on the derivation -/

theorem Parses.precision_letters {text rest : List Char} {nodes : List Node}
    (h : Parses (.rule .precision) text rest nodes) :
    ∃ letters, text = letters ++ rest ∧ nodes = [⟨.precision, letters, []⟩] := by
  cases h with
  | rule hinner =>
      cases hinner
      exact ⟨_, rfl, rfl⟩

/-- All derivations of the form from one place on, behind which the text goes on as required,
lead to one place and have the same precisions. -/
def Form.Fixes (bound : Nat) (follow : List Char → Prop) (form : Form) : Prop :=
  ∀ text text' last last' nodes nodes', skipGap text = skipGap text' → text.length < bound →
    text'.length < bound → Parses form text last nodes → Parses form text' last' nodes' →
      follow (skipGap last) → follow (skipGap last') →
        skipGap last = skipGap last' ∧ precisions nodes = precisions nodes'

namespace Form.Fixes

variable {bound : Nat} {follow between : List Char → Prop} {form first second : Form}

theorem mono {follow' : List Char → Prop} (h : form.Fixes bound follow)
    (himp : ∀ text, follow' text → follow text) : form.Fixes bound follow' :=
  fun text text' last last' nodes nodes' hskip hlength hlength' hparses hparses' hlast hlast' =>
    h text text' last last' nodes nodes' hskip hlength hlength' hparses hparses'
      (himp _ hlast) (himp _ hlast')

/-- The parser of a form stops at one place only. -/
theorem of_complete {α : Type} {p : Parser α} (h : Parser.Complete bound follow p form)
    (hform : form.Plain) : form.Fixes bound follow := by
  intro text text' last last' nodes nodes' hskip hlength hlength' hparses hparses' hlast hlast'
  obtain ⟨a, ha⟩ := h text last hlength hparses.derives hlast
  obtain ⟨a', ha'⟩ := h text' last' hlength' hparses'.derives hlast'
  rw [hskip, ha'] at ha
  refine ⟨(congrArg Prod.snd (Option.some_inj.mp ha)).symm, ?_⟩
  rw [hparses.precisions_eq_nil hform, hparses'.precisions_eq_nil hform]

theorem rule {name : Rule} (h : name.form.Fixes bound follow) (hname : name ≠ .precision) :
    (Form.rule name).Fixes bound follow := by
  intro text text' last last' nodes nodes' hskip hlength hlength' hparses hparses' hlast hlast'
  cases hparses with
  | rule hinner =>
      cases hparses' with
      | rule hinner' =>
          rw [precisions_singleton hname, precisions_singleton hname]
          exact h _ _ _ _ _ _ hskip hlength hlength' hinner hinner' hlast hlast'

theorem precision : (Form.rule .precision).Fixes bound follow := by
  intro text text' last last' nodes nodes' hskip _ _ hparses hparses' _ _
  rw [begins_precision.skipGap_eq hparses.derives, begins_precision.skipGap_eq hparses'.derives]
    at hskip
  subst hskip
  obtain rfl := precision_reads.unique (derives_rule_iff.mp hparses.derives)
    (derives_rule_iff.mp hparses'.derives)
  obtain ⟨letters, htext, rfl⟩ := hparses.precision_letters
  obtain ⟨letters', htext', rfl⟩ := hparses'.precision_letters
  obtain rfl := List.append_cancel_right (htext.symm.trans htext')
  exact ⟨rfl, rfl⟩

/-- One form and then another, where the second says how the text goes on behind the first,
and what is left for it is shorter than its own bound. -/
theorem sequence_of_lt {bound' : Nat} (h : first.Fixes bound between)
    (h' : second.Fixes bound' follow)
    (hbetween : ∀ text last, Derives second text last → follow (skipGap last) →
      between (skipGap text))
    (hbound : ∀ text last, text.length < bound → Derives first text last → last.length < bound') :
    (Form.sequence first second).Fixes bound follow := by
  intro text text' last last' nodes nodes' hskip hlength hlength' hparses hparses' hlast hlast'
  cases hparses with
  | sequence hfirst hgap hsecond =>
      cases hparses' with
      | sequence hfirst' hgap' hsecond' =>
          have hmiddle := hbetween _ _ hsecond.derives hlast
          have hmiddle' := hbetween _ _ hsecond'.derives hlast'
          rw [← hgap.skipGap_eq] at hmiddle
          rw [← hgap'.skipGap_eq] at hmiddle'
          obtain ⟨hends, hfront⟩ := h _ _ _ _ _ _ hskip hlength hlength' hfirst hfirst' hmiddle
            hmiddle'
          rw [hgap.skipGap_eq, hgap'.skipGap_eq] at hends
          have hnext := hbound _ _ hlength hfirst.derives
          have hnext' := hbound _ _ hlength' hfirst'.derives
          have hle := hgap.length_le
          have hle' := hgap'.length_le
          obtain ⟨hends', hback⟩ := h' _ _ _ _ _ _ hends (by omega) (by omega) hsecond hsecond'
            hlast hlast'
          exact ⟨hends', by rw [precisions_append, precisions_append, hfront, hback]⟩

/-- The special case of one bound for both. -/
theorem sequence (h : first.Fixes bound between) (h' : second.Fixes bound follow)
    (hbetween : ∀ text last, Derives second text last → follow (skipGap last) →
      between (skipGap text)) : (Form.sequence first second).Fixes bound follow :=
  h.sequence_of_lt h' hbetween fun _ _ hlength hfirst =>
    lt_of_le_of_lt hfirst.length_le hlength

/-- The special case in which it does not matter what follows the first word. -/
theorem before (h : first.Fixes bound Parser.Anyhow) (h' : second.Fixes bound follow) :
    (Form.sequence first second).Fixes bound follow :=
  h.sequence h' fun _ _ _ _ => trivial

/-- Two alternatives that cannot both be derived. -/
theorem choice (h : first.Fixes bound follow) (h' : second.Fixes bound follow)
    (hcross : ∀ text text' last last', skipGap text = skipGap text' → Derives first text last →
      Derives second text' last' → ¬ follow (skipGap last')) :
    (Form.choice first second).Fixes bound follow := by
  intro text text' last last' nodes nodes' hskip hlength hlength' hparses hparses' hlast hlast'
  cases hparses with
  | left hfirst =>
      cases hparses' with
      | left hfirst' => exact h _ _ _ _ _ _ hskip hlength hlength' hfirst hfirst' hlast hlast'
      | right hsecond' =>
          exact absurd hlast' (hcross _ _ _ _ hskip hfirst.derives hsecond'.derives)
  | right hsecond =>
      cases hparses' with
      | left hfirst' =>
          exact absurd hlast (hcross _ _ _ _ hskip.symm hfirst'.derives hsecond.derives)
      | right hsecond' => exact h' _ _ _ _ _ _ hskip hlength hlength' hsecond hsecond' hlast hlast'

/-- Alternatives that begin with different characters. -/
theorem choice_of_disjoint {kind kind' : Char → Prop} (h : first.Fixes bound follow)
    (h' : second.Fixes bound follow) (hfirst : first.Begins kind) (hsecond : second.Begins kind')
    (hsolid : ∀ c, kind c → Solid c) (hsolid' : ∀ c, kind' c → Solid c)
    (hdisjoint : ∀ c, kind c → ¬ kind' c) : (Form.choice first second).Fixes bound follow := by
  refine h.choice h' fun text text' last last' hskip hlast hlast' _ => ?_
  obtain ⟨c, hc, hkind⟩ := hfirst.opens hsolid hlast
  exact ((hsecond.opens hsolid' hlast').avoids fun c hkind' hkind => hdisjoint c hkind hkind')
    c (hskip ▸ hc) hkind

/-- A repetition that goes on as long as the next character says so. -/
theorem repeated {kind : Char → Prop} (h : form.Fixes bound between) (hform : form.Begins kind)
    (hsolid : ∀ c, kind c → Solid c) (hstop : ∀ text, follow text → Avoids kind text)
    (hagain : ∀ text last, Derives form text last → between (skipGap text))
    (hend : ∀ text, follow (skipGap text) → between (skipGap text)) :
    (Form.repeated form).Fixes bound follow := by
  intro text text' last last' nodes nodes' hskip hlength hlength' hparses hparses' hlast hlast'
  generalize hwhole : Form.repeated form = whole at hparses
  induction hparses generalizing text' nodes' with
  | stop text =>
      cases hwhole
      cases hparses' with
      | stop text' => exact ⟨hskip, rfl⟩
      | more hfirst' _ _ =>
          -- Nothing follows here, so no word begins there.
          obtain ⟨c, hc, hkind⟩ := hform.opens hsolid hfirst'.derives
          exact absurd hkind (hstop _ hlast c (hskip ▸ hc))
  | more hfirst hgap hrest _ ih =>
      cases hwhole
      cases hparses' with
      | stop text' =>
          obtain ⟨c, hc, hkind⟩ := hform.opens hsolid hfirst.derives
          exact absurd hkind (hstop _ hlast' c (hskip ▸ hc))
      | more hfirst' hgap' hrest' =>
          have hmiddle := Parser.follow_repeated hagain hend hrest.derives hlast
          have hmiddle' := Parser.follow_repeated hagain hend hrest'.derives hlast'
          rw [← hgap.skipGap_eq] at hmiddle
          rw [← hgap'.skipGap_eq] at hmiddle'
          obtain ⟨hends, hfront⟩ := h _ _ _ _ _ _ hskip hlength hlength' hfirst hfirst' hmiddle
            hmiddle'
          rw [hgap.skipGap_eq, hgap'.skipGap_eq] at hends
          have hle := hfirst.derives.length_le
          have hle' := hfirst'.derives.length_le
          have hgaple := hgap.length_le
          have hgaple' := hgap'.length_le
          obtain ⟨hends', hback⟩ := ih _ _ hends (by omega) (by omega) hrest' hlast rfl
          exact ⟨hends', by rw [precisions_append, precisions_append, hfront, hback]⟩
  | _ => cases hwhole

end Form.Fixes

/-! ## Declarations and features -/

section

variable {bound : Nat} {follow : List Char → Prop}

theorem nothing_fixes : Form.nothing.Fixes bound follow := by
  intro text text' last last' nodes nodes' hskip _ _ hparses hparses' _ _
  cases hparses
  cases hparses'
  exact ⟨hskip, rfl⟩

theorem endOfInput_fixes : (Form.rule .endOfInput).Fixes bound follow := by
  refine .rule ?_ (by decide)
  intro text text' last last' nodes nodes' _ _ _ hparses hparses' _ _
  cases hparses
  cases hparses'
  exact ⟨rfl, rfl⟩

theorem symbol_fixes {c : Char} (hc : Solid c) (letters : List Char) :
    (Form.symbol (c :: letters)).Fixes bound follow :=
  .of_complete (Parser.literal_complete hc letters) trivial

theorem preciseType_fixes : (Form.rule .preciseType).Fixes bound follow :=
  .rule ((symbol_fixes (by decide) _).before ((symbol_fixes (by decide) _).before
    (Form.Fixes.precision.before (symbol_fixes (by decide) _)))) (by decide)

theorem typeExpr_fixes : (Form.oneOf [.rule .boolType, .rule .intType, .rule .preciseType,
    .rule .numType]).Fixes bound (Avoids (· = '(')) := by
  have hnum : (Form.choice (.rule .preciseType) (.rule .numType)).Begins (· = 'n') :=
    Parser.begins_preciseType.choice Parser.begins_numType
  have hint : (Form.rule .intType).Begins (· = 'i') := .rule (.symbol _ _)
  have hnumber : (Form.choice (.rule .intType)
      (.choice (.rule .preciseType) (.rule .numType))).Begins fun c => c = 'i' ∨ c = 'n' :=
    (hint.mono fun _ => .inl).choice (hnum.mono fun _ => .inr)
  refine .choice_of_disjoint (.rule (symbol_fixes (by decide) _) (by decide))
    (.choice_of_disjoint (.rule (symbol_fixes (by decide) _) (by decide))
      (preciseType_fixes.choice (.rule (symbol_fixes (by decide) _) (by decide)) ?_)
      hint hnum (forall_eq.mpr (by decide)) (forall_eq.mpr (by decide)) ?_)
    (.rule (.symbol 'b' _)) hnumber (forall_eq.mpr (by decide)) ?_ ?_
  · -- A parenthesis behind the type would belong to it.
    intro text text' last last' hskip hprecise hplain hfollow
    rw [(Parser.begins_preciseType.mono (forall_eq.mpr (by decide))).skipGap_eq hprecise,
      (Parser.begins_numType.mono (forall_eq.mpr (by decide))).skipGap_eq hplain] at hskip
    exact Parser.not_preciseType hplain hfollow (hskip ▸ hprecise)
  · rintro _ rfl
    decide
  · rintro c (rfl | rfl)
    all_goals decide
  · rintro _ rfl
    decide

theorem declaration_fixes : (Form.rule .declaration).Fixes bound (Avoids (· = '(')) := by
  have hword : (Form.rule .varWord).Fixes bound Parser.Anyhow :=
    .of_complete (.rule (Parser.word_complete (by decide) _)) (by simp)
  have hname : (Form.rule .variableName).Fixes bound Parser.Anyhow :=
    .of_complete Parser.variableName_complete (by simp)
  exact .rule (hword.before (hname.before ((symbol_fixes (by decide) _).before typeExpr_fixes)))
    (by decide)

theorem item_fixes (h : (Form.rule .feature).Fixes bound Parser.Anyhow) :
    Form.item.Fixes bound Parser.ItemEnd := by
  have hdeclaration : (Form.rule .declaration).Fixes bound Parser.ItemEnd :=
    declaration_fixes.mono fun _ htext c hc heq => htext c hc (.inl heq)
  have hdecision : (Form.rule .decision).Fixes bound Parser.ItemEnd :=
    .of_complete ((Parser.decision_complete bound).mono fun _ htext c hc heq =>
      htext c hc (.inr heq)) (by simp)
  have hlater : (Form.choice (.rule .decision) (.rule .feature)).Begins
      fun c => c = 'i' ∨ c = '[' :=
    .choice (Parser.begins_decision.mono fun _ => .inl) (Parser.begins_feature.mono fun _ => .inr)
  refine .choice_of_disjoint hdeclaration (.choice_of_disjoint hdecision (h.mono fun _ _ => trivial)
    Parser.begins_decision Parser.begins_feature (forall_eq.mpr (by decide))
    (forall_eq.mpr (by decide)) ?_) Parser.begins_declaration hlater
    (forall_eq.mpr (by decide)) ?_ ?_
  · rintro _ rfl
    decide
  · rintro c (rfl | rfl)
    all_goals decide
  · rintro _ rfl
    decide

theorem feature_fixes (bound : Nat) : (Form.rule .feature).Fixes bound Parser.Anyhow := by
  induction bound with
  | zero =>
      intro text text' last last' nodes nodes' _ hlength
      exact absurd hlength (Nat.not_lt_zero _)
  | succ bound ih =>
      have hagain : ∀ text last, Derives .item text last → Parser.ItemEnd (skipGap text) :=
        fun _ _ => Parser.itemEnd_of_item
      have hend : ∀ text, Opens (· = ']') (skipGap text) → Parser.ItemEnd (skipGap text) := by
        refine fun text htext => htext.avoids ?_
        rintro _ rfl
        decide
      have hstop : ∀ text, Opens (· = ']') text → Avoids Parser.ItemStart text := by
        refine fun text htext => htext.avoids ?_
        rintro _ rfl
        unfold Parser.ItemStart
        decide
      have hitems : (Form.repeated1 .item).Fixes bound (Opens (· = ']')) :=
        (item_fixes ih).sequence ((item_fixes ih).repeated Parser.begins_item
          Parser.ItemStart.solid hstop hagain hend) fun _ _ => Parser.follow_repeated hagain hend
      have hclose : ∀ text last, Derives (.symbol [']']) text last → Parser.Anyhow (skipGap last) →
          Opens (· = ']') (skipGap text) :=
        fun _ _ hlast _ => (Form.Begins.symbol ']' []).opens (forall_eq.mpr (by decide)) hlast
      have hopen : (Form.symbol ['[']).Fixes (bound + 1) Parser.Anyhow :=
        symbol_fixes (by decide) []
      refine .rule (hopen.sequence_of_lt (hitems.sequence (symbol_fixes (by decide) _) hclose)
        (fun _ _ _ _ => trivial) fun text last hlength hlast => ?_) (by decide)
      have hless := (Form.Begins.symbol '[' []).length_lt hlast
      omega

end

/-- The precisions of a source do not depend on the syntax tree. -/
theorem SyntaxTree.precisions_eq {source : List Char} {file file' : Node}
    (h : SyntaxTree source file) (h' : SyntaxTree source file') :
    precisions [file] = precisions [file'] := by
  have hfile : (Form.rule .file).Fixes (source.length + 1) Parser.Anyhow :=
    .rule (nothing_fixes.before ((feature_fixes _).before endOfInput_fixes)) (by decide)
  exact (hfile source source [] [] [file] [file'] rfl (Nat.lt_succ_self _) (Nat.lt_succ_self _) h h'
    trivial trivial).2

/-! ## Reading a text -/

/-- The error about a precision tells its spelling. -/
theorem refused_injective {spelling spelling' : String}
    (h : BuildError.refused spelling = BuildError.refused spelling') : spelling = spelling' := by
  have htext := congrArg String.toList (BuildError.invalid.inj h).2
  simp only [String.toList_append] at htext
  exact String.toList_inj.mp (List.append_cancel_left (List.append_cancel_right htext))

/-- Both ways to report a refused precision have the same wording. -/
theorem message_refusal (literal : Numeral) :
    (refusal literal).message = (ParseError.precision literal).message := by
  have hfront : "Invalid value for field '" ++ "precision" ++ "': " ++ "'" =
      "Invalid value for field 'precision': '" := by decide
  change "Invalid value for field '" ++ "precision" ++ "': " ++
    ("'" ++ literal.spelling ++ "' must be greater than zero") = _
  rw [← String.append_assoc, ← String.append_assoc, hfront]
  rfl

/-- **There are two ways to fail.**  A text that does not follow the grammar is unreadable.
Any other text has syntax trees, and reading it gives what is built from one of them, or an
error of the same name and wording.  Of every one of them it holds that where a precision in it
is not greater than zero, the first of these is refused with its spelling, by the builders and
by reading; and that where there is none, both give a well-formed feature.  So no node is ever
missing from a tree, and no other token is refused. -/
theorem Feature.parse_fails_in_two_ways (source : List Char) :
    (¬ FollowsGrammar source → ∃ report, Feature.parse source = .error (.unreadable report)) ∧
      (FollowsGrammar source → ∃ file, SyntaxTree source file ∧
        (buildSource [file]).mapError (fun error => (error.label, error.message)) =
          (Feature.parse source).mapError fun error => (error.label, error.message)) ∧
      ∀ file, SyntaxTree source file →
        (∀ letters, (precisions [file]).find? refuses = some letters →
          buildSource [file] = .error (.refused (.ofList letters)) ∧
            ∃ literal, Feature.parse source = .error (.precision literal) ∧
              literal.spelling = .ofList letters) ∧
        ((precisions [file]).find? refuses = none →
          (∃ built, buildSource [file] = .ok built ∧ built.WellFormed) ∧
            ∃ feature, Feature.parse source = .ok feature ∧ feature.WellFormed) := by
  refine ⟨fun hnot => ?_, fun hgrammar => ?_, fun file htree => ?_⟩
  · have hrun : (Parser.source source.length).run source = none := by
      rwa [← Option.not_isSome_iff_eq_none, Parser.source_run_isSome_iff]
    exact ⟨_, Feature.parse_eq_unreadable_iff.mpr ⟨hrun, rfl⟩⟩
  · obtain ⟨file, items, htree, hparse, hbuild⟩ := Feature.exists_tree_of_parse hgrammar
    refine ⟨file, htree, ?_⟩
    rw [hparse, hbuild]
    cases Feature.ofItems items with
    | error literal => exact congrArg Except.error (Prod.ext rfl (message_refusal literal))
    | ok feature => rfl
  · -- The tree from which the same is built as is read has the same precisions.
    obtain ⟨read, items, hread, hparse, hbuild⟩ :=
      Feature.exists_tree_of_parse (exists_syntaxTree_iff.mp ⟨file, htree⟩)
    have hsettles := settles_buildSource htree
    have hsettled := settles_buildSource hread
    rw [← htree.precisions_eq hread, hbuild] at hsettled
    unfold Settles at hsettles hsettled
    refine ⟨fun letters hfind => ?_, fun hfind => ?_⟩
    · rw [hfind] at hsettles hsettled
      refine ⟨hsettles, ?_⟩
      cases hitems : Feature.ofItems items with
      | error literal =>
          rw [hitems] at hsettled hparse
          exact ⟨literal, hparse, refused_injective (Except.error.inj hsettled)⟩
      | ok feature =>
          rw [hitems] at hsettled
          cases hsettled
    · rw [hfind] at hsettles hsettled
      refine ⟨hsettles, ?_⟩
      obtain ⟨feature, hok, hwell⟩ := hsettled
      exact ⟨feature, by rw [hparse, mapError_eq_ok hok]; rfl, hwell⟩

/-- A condition of two words can be derived in several ways.  The precision in the nested feature
comes before the one behind it. -/
theorem Feature.parse_fails_in_two_ways_nested :
    ∃ file, SyntaxTree
        "[ var a: num(0.5) [ if (true = Inf) var b: num(0.00) ] var c: num(0) ]".toList file ∧
      buildSource [file] = .error (.refused "0.00") ∧
      ∃ literal, Feature.parse
          "[ var a: num(0.5) [ if (true = Inf) var b: num(0.00) ] var c: num(0) ]".toList =
            .error (.precision literal) ∧ literal.spelling = "0.00" := by
  obtain ⟨letters, hletters, hread, hrefused⟩ : ∃ letters,
      "[ var a: num(0.5) [ if (true = Inf) var b: num(0.00) ] var c: num(0) ]".toList = letters ∧
        ((Parser.source letters.length).run letters).isSome = true ∧
          (match Feature.parse letters with
            | .error (.precision literal) => literal.spelling == "0.00"
            | _ => false) = true :=
    ⟨_, String.toList_ofList, by decide +kernel, by decide +kernel⟩
  rw [hletters]
  obtain ⟨-, htrees, hall⟩ := Feature.parse_fails_in_two_ways letters
  obtain ⟨file, htree, -⟩ := htrees ((Parser.source_run_isSome_iff letters).mp hread)
  refine ⟨file, htree, ?_⟩
  cases hfind : (precisions [file]).find? refuses with
  | none =>
      obtain ⟨feature, hok, -⟩ := ((hall file htree).2 hfind).2
      rw [hok] at hrefused
      cases hrefused
  | some letters =>
      obtain ⟨hbuild, literal, herror, hspelling⟩ := (hall file htree).1 letters hfind
      rw [herror] at hrefused
      have htext : literal.spelling = "0.00" := eq_of_beq hrefused
      rw [← hspelling, htext] at hbuild
      exact ⟨hbuild, literal, herror, htext⟩

end DecisionTuples
