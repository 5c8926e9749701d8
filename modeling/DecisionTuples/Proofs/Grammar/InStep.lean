import DecisionTuples.Proofs.Except
import DecisionTuples.Proofs.Grammar.Language
import DecisionTuples.Proofs.Grammar.Uniform

/-!
# Texts of the same tokens are read alike

`Alike e n text text'` says that two texts are laid out of the same `n` tokens.  Two
parsers are in step (`InStep`) if on all such texts both fail, or both give the same value
and leave texts that are alike again, with fewer tokens.  Parsers of tokens are in step
with themselves because no token is read otherwise before another text, and the
combinators keep parsers in step.  Decisions and features are read with a bound on the
depth of nesting that depends on the length of the text: their parsers are in step for all
bounds that the number of tokens does not reach.

So layout never matters (`Feature.parse_ignores_layout`).
-/

namespace DecisionTuples

/-- Two texts laid out of the same tokens, and how many these are. -/
inductive Alike : Expect → Nat → List Char → List Char → Prop
  | nil : Alike .any 0 [] []
  | cons {e : Expect} {n : Nat} {letters behind behind' : List Char}
      (hstands : Stands e letters behind) (hstands' : Stands e letters behind')
      (hrest : Alike (.after letters) n (skipGap behind) (skipGap behind')) :
      Alike e (n + 1) (letters ++ behind) (letters ++ behind')

theorem Laid.alike {e : Expect} {tokens tokens' : List Placed} {text text' : List Char}
    (h : Laid e tokens text) (h' : Laid e tokens' text')
    (hletters : tokens'.map Placed.letters = tokens.map Placed.letters) :
    Alike e tokens.length text text' := by
  induction h generalizing tokens' text' with
  | nil =>
      obtain rfl := List.map_eq_nil_iff.mp hletters
      cases h'
      exact .nil
  | cons hstands _ ih =>
      obtain ⟨token', others', rfl, hfirst, hothers⟩ := List.map_eq_cons_iff.mp hletters
      cases h' with
      | cons hstands' hrest' =>
          rw [hfirst] at hstands' hrest' ⊢
          exact .cons hstands hstands' (ih hrest' hothers)

/-- There are at most as many tokens as characters. -/
theorem Alike.length_le {e : Expect} {n : Nat} {text text' : List Char}
    (h : Alike e n text text') : n ≤ text.length ∧ n ≤ text'.length := by
  induction h with
  | nil => exact ⟨le_rfl, le_rfl⟩
  | @cons e n letters behind behind' hstands _ _ ih =>
      have hletters := List.length_pos_of_ne_nil hstands.ne_nil
      have hbehind := (gap_skipGap behind).length_le
      have hbehind' := (gap_skipGap behind').length_le
      rw [List.length_append, List.length_append]
      omega

/-- Behind a minus sign both texts go on with the word for infinity. -/
theorem Alike.infinity_cases {n : Nat} {text text' : List Char}
    (h : Alike .infinity n text text') :
    ∃ k rest rest', n = k + 1 ∧ text = infinityWord ++ rest ∧ text' = infinityWord ++ rest' ∧
      AtWordEnd rest ∧ AtWordEnd rest' ∧ Alike .any k (skipGap rest) (skipGap rest') := by
  cases h with
  | @cons _ k _ rest rest' hstands hstands' hrest =>
      cases hstands with
      | infinity hend =>
          cases hstands' with
          | infinity hend' => exact ⟨k, rest, rest', rfl, rfl, rfl, hend, hend', hrest⟩

namespace Parser

variable {α β : Type} {e middle e' : Expect} {bound taken : Nat} {p p' q q' : Parser α}

/-- On texts of the same tokens, fewer than `bound`, both parsers fail, or both give the
same value, take at least `taken` tokens and leave texts of the same tokens. -/
def InStep (bound taken : Nat) (e e' : Expect) (p p' : Parser α) : Prop :=
  ∀ m text text', m < bound → Alike e m text text' →
    (p.run text = none ∧ p'.run text' = none) ∨
      ∃ a rest rest' k, p.run text = some (a, rest) ∧ p'.run text' = some (a, rest') ∧
        Alike e' k rest rest' ∧ k + taken ≤ m

namespace InStep

theorem pure (a : α) : InStep bound 0 e e (pure a) (pure a) :=
  fun m text text' _ halike => .inr ⟨a, text, text', m, rfl, rfl, halike, le_rfl⟩

/-- One parser and then another, where the second has only to be in step on what the
first leaves. -/
theorem bind_of_le {bound' taken' : Nat} {f f' : α → Parser β}
    (hp : InStep bound taken e middle p p')
    (hf : ∀ a, InStep bound' taken' middle e' (f a) (f' a)) (hbound : bound ≤ bound' + taken) :
    InStep bound taken e e' (p >>= f) (p' >>= f') := by
  intro m text text' hm halike
  rw [run_bind, run_bind]
  rcases hp m text text' hm halike with ⟨hrun, hrun'⟩ | ⟨a, rest, rest', k, hrun, hrun', hrest, hk⟩
  · rw [hrun, hrun']
    exact .inl ⟨rfl, rfl⟩
  · rw [hrun, hrun', Option.bind_some, Option.bind_some]
    rcases hf a k rest rest' (by omega) hrest with
      hnone | ⟨b, last, last', j, hlast, hlast', hbehind, hj⟩
    · exact .inl hnone
    · exact .inr ⟨b, last, last', j, hlast, hlast', hbehind, by omega⟩

theorem bind {taken' : Nat} {f f' : α → Parser β} (hp : InStep bound taken e middle p p')
    (hf : ∀ a, InStep bound taken' middle e' (f a) (f' a)) :
    InStep bound taken e e' (p >>= f) (p' >>= f') :=
  hp.bind_of_le hf (Nat.le_add_right _ _)

/-- The special case in which the first parser takes a token. -/
theorem step {taken' : Nat} {f f' : α → Parser β} (hp : InStep (bound + 1) 1 e middle p p')
    (hf : ∀ a, InStep bound taken' middle e' (f a) (f' a)) :
    InStep (bound + 1) 1 e e' (p >>= f) (p' >>= f') :=
  hp.bind_of_le hf le_rfl

theorem map (hp : InStep bound taken e e' p p') (g : α → β) :
    InStep bound taken e e' (p >>= fun a => Pure.pure (g a)) (p' >>= fun a => Pure.pure (g a)) :=
  hp.bind fun a => .pure (g a)

theorem rule (name : Rule) (hp : InStep bound taken e e' p p') :
    InStep bound taken e e' (rule name p) (Parser.rule name p') :=
  hp

theorem orElse (hp : InStep bound taken e e' p p') (hq : InStep bound taken e e' q q') :
    InStep bound taken e e' (orElse p q) (Parser.orElse p' q') := by
  intro m text text' hm halike
  rw [run_orElse, run_orElse]
  rcases hp m text text' hm halike with ⟨hrun, hrun'⟩ | ⟨a, rest, rest', k, hrun, hrun', hrest⟩
  · -- The second alternative is tried on the same texts.
    rw [hrun, hrun', Option.none_or, Option.none_or]
    exact hq m text text' hm halike
  · rw [hrun, hrun', Option.some_or, Option.some_or]
    exact .inr ⟨a, rest, rest', k, rfl, rfl, hrest⟩

theorem optional (hp : InStep bound taken e e p p') :
    InStep bound 0 e e (optional p) (Parser.optional p') := by
  intro m text text' hm halike
  unfold Parser.optional
  dsimp only
  rcases hp m text text' hm halike with ⟨hrun, hrun'⟩ | ⟨a, rest, rest', k, hrun, hrun', hrest, hk⟩
  · rw [hrun, hrun']
    exact .inr ⟨none, text, text', m, rfl, rfl, halike, le_rfl⟩
  · rw [hrun, hrun']
    exact .inr ⟨some a, rest, rest', k, rfl, rfl, hrest, by omega⟩

/-- Repetitions are in step if they may be as many as there are tokens. -/
theorem runMany (hp : InStep bound 1 e e p p') {times times' m : Nat} {text text' : List Char}
    (hm : m < bound) (halike : Alike e m text text') (htimes : m < times) (htimes' : m < times') :
    ∃ found rest rest' k, runMany p times text = (found, rest) ∧
      Parser.runMany p' times' text' = (found, rest') ∧ Alike e k rest rest' ∧ k ≤ m := by
  induction times generalizing times' m text text' with
  | zero => exact absurd htimes (Nat.not_lt_zero m)
  | succ times ih =>
      obtain ⟨times', rfl⟩ : ∃ t, times' = t + 1 := ⟨times' - 1, by omega⟩
      unfold Parser.runMany
      rcases hp m text text' hm halike with
        ⟨hrun, hrun'⟩ | ⟨a, rest, rest', k, hrun, hrun', hrest, hk⟩
      · rw [hrun, hrun']
        exact ⟨[], text, text', m, rfl, rfl, halike, le_rfl⟩
      · obtain ⟨found, last, last', j, hlast, hlast', hbehind, hj⟩ :=
          ih (by omega) hrest (by omega) (by omega : k < times')
        rw [hrun, hrun']
        dsimp only
        rw [hlast, hlast']
        exact ⟨a :: found, last, last', j, rfl, rfl, hbehind, by omega⟩

theorem many (hp : InStep bound 1 e e p p') : InStep bound 0 e e (many p) (Parser.many p') := by
  intro m text text' hm halike
  have htokens := halike.length_le
  obtain ⟨found, rest, rest', k, hrun, hrun', hrest, hk⟩ :=
    hp.runMany hm halike (Nat.lt_succ_of_le htokens.1) (Nat.lt_succ_of_le htokens.2)
  exact .inr ⟨found, rest, rest', k, congrArg some hrun, congrArg some hrun', hrest, hk⟩

theorem many1 (hp : InStep bound 1 e e p p') : InStep bound 1 e e (many1 p) (Parser.many1 p') :=
  hp.bind fun _ => hp.many.map _

/-- A token that is read as the same value wherever it stands. -/
theorem of_readsAlike {read : List Char → Option (α × List Char)} {n : Nat}
    {letters behind behind' : List Char} (h : ReadsAlike e e' read letters)
    (hstands : Stands e letters behind) (hstands' : Stands e letters behind')
    (hrest : Alike (.after letters) n (skipGap behind) (skipGap behind')) :
    ((lexeme read).run (letters ++ behind) = none ∧
        (lexeme read).run (letters ++ behind') = none) ∨
      ∃ a rest rest' k, (lexeme read).run (letters ++ behind) = some (a, rest) ∧
        (lexeme read).run (letters ++ behind') = some (a, rest') ∧ Alike e' k rest rest' ∧
          k + 1 ≤ n + 1 := by
  unfold Parser.lexeme
  rw [run_token, run_token]
  rcases h with hnone | ⟨rfl, a, hread⟩
  · rw [hnone behind hstands, hnone behind' hstands']
    exact .inl ⟨rfl, rfl⟩
  · rw [hread behind hstands, hread behind' hstands']
    exact .inr ⟨a, _, _, n, rfl, rfl, hrest, le_rfl⟩

theorem lexeme {read : List Char → Option (α × List Char)} (h : Uniform e e' read)
    (hnil : read [] = none) : InStep bound 1 e e' (lexeme read) (Parser.lexeme read) := by
  intro m text text' _ halike
  cases halike with
  | nil =>
      unfold Parser.lexeme
      rw [run_token, hnil]
      exact .inl ⟨rfl, rfl⟩
  | cons hstands hstands' hrest => exact of_readsAlike (h _) hstands hstands' hrest

end InStep

/-! ## Tokens -/

theorem mark_inStep {c : Char} {tail : List Char} (hmark : c :: tail ∈ marks) (hne : c ≠ '-') :
    InStep bound 1 .any (.after (c :: tail)) (literal (c :: tail)) (literal (c :: tail)) :=
  .lexeme (uniform_mark hmark hne) rfl

/-- A mark that is not a colon. -/
theorem plain_inStep {c : Char} {tail : List Char} (hmark : c :: tail ∈ marks) (hne : c ≠ '-')
    (hafter : Expect.after (c :: tail) = .any) :
    InStep bound 1 .any .any (literal (c :: tail)) (literal (c :: tail)) := by
  have hstep : InStep bound 1 .any _ _ _ := mark_inStep hmark hne
  rwa [hafter] at hstep

theorem type_inStep {c : Char} {tail : List Char} (htype : c :: tail ∈ typeWords) :
    InStep bound 1 .type (.after (c :: tail)) (literal (c :: tail)) (literal (c :: tail)) :=
  .lexeme (uniform_type htype) rfl

theorem varWord_inStep : InStep bound 1 .any .any varWord varWord :=
  .rule _ (.lexeme (uniform_word (by decide) (by decide)) rfl)

theorem ifWord_inStep : InStep bound 1 .any .any ifWord ifWord :=
  .rule _ (.lexeme (uniform_word (by decide) (by decide)) rfl)

theorem elseWord_inStep : InStep bound 1 .any .any elseWord elseWord :=
  .rule _ (.lexeme (uniform_word (by decide) (by decide)) rfl)

theorem inWord_inStep : InStep bound 1 .any .any inWord inWord :=
  .rule _ (.lexeme (uniform_word (by decide) (by decide)) rfl)

theorem truthValue_inStep : InStep bound 1 .any .any truthValue truthValue :=
  .rule _ (.lexeme uniform_truthValue rfl)

theorem equality_inStep : InStep bound 1 .any .any equality equality :=
  .rule _ (.lexeme uniform_equality rfl)

theorem comparison_inStep : InStep bound 1 .any .any comparison comparison :=
  .rule _ (.lexeme uniform_comparison rfl)

theorem variableName_inStep : InStep bound 1 .any .any variableName variableName :=
  .rule _ (.lexeme uniform_readName? rfl)

theorem precision_inStep : InStep bound 1 .any .any precision precision :=
  .rule _ (.lexeme uniform_precision rfl)

theorem lowerBracket_inStep : InStep bound 1 .any .any lowerBracket lowerBracket :=
  .rule _ (.lexeme
    (uniform_brackets (by decide) (by decide) (by decide) ⟨rfl, rfl⟩ (by decide) _ _) rfl)

theorem upperBracket_inStep : InStep bound 1 .any .any upperBracket upperBracket :=
  .rule _ (.lexeme
    (uniform_brackets (by decide) (by decide) (by decide) ⟨rfl, rfl⟩ (by decide) _ _) rfl)

/-- Of a minus sign two tokens are read, with whatever gap between them. -/
theorem number_inStep : InStep bound 1 .any .any number number := by
  refine .rule _ fun m text text' _ halike => ?_
  cases halike with
  | nil => exact .inl ⟨rfl, rfl⟩
  | @cons _ n letters behind behind' hstands hstands' hrest =>
      by_cases hminus : letters = ['-']
      · -- The gap behind the sign is skipped as well, so the word is the next token of both.
        rw [hminus] at hrest ⊢
        obtain ⟨k, rest, rest', rfl, hword, hword', hend, hend', hrest⟩ := hrest.infinity_cases
        refine .inr ⟨.negativeInfinity, _, _, k, ?_, ?_, hrest, by omega⟩
        · unfold lexeme
          rw [run_token, List.singleton_append, readNumber?_minus hword hend]
          rfl
        · unfold lexeme
          rw [run_token, List.singleton_append, readNumber?_minus hword' hend']
          rfl
      · exact InStep.of_readsAlike (readsAlike_readNumber? hminus) hstands hstands' hrest

/-! ## Types, declarations and conditions -/

theorem typeExpr_inStep : InStep bound 1 .type .any typeExpr typeExpr := by
  have hprecise : InStep bound 1 .type .any (do
      literal ['n', 'u', 'm']
      literal ['(']
      let digits ← precision
      literal [')']
      return TypeExpr.numWith digits) (do
      literal ['n', 'u', 'm']
      literal ['(']
      let digits ← precision
      literal [')']
      return TypeExpr.numWith digits) :=
    (type_inStep (by decide)).bind fun _ =>
      (plain_inStep (by decide) (by decide) rfl).bind fun _ => precision_inStep.bind fun _ =>
        (plain_inStep (by decide) (by decide) rfl).map _
  exact .orElse (.rule _ ((type_inStep (by decide)).map _))
    (.orElse (.rule _ ((type_inStep (by decide)).map _))
      (.orElse (.rule _ hprecise) (.rule _ ((type_inStep (by decide)).map _))))

theorem declaration_inStep : InStep bound 1 .any .any declaration declaration :=
  .rule _ (varWord_inStep.bind fun _ => variableName_inStep.bind fun _ =>
    (mark_inStep (by decide) (by decide)).bind fun _ => typeExpr_inStep.map _)

theorem truthFirst_inStep : InStep bound 1 .any .any truthFirst truthFirst :=
  .rule _ (truthValue_inStep.bind fun _ => equality_inStep.bind fun _ =>
    variableName_inStep.map _)

theorem truthLast_inStep : InStep bound 1 .any .any truthLast truthLast :=
  .rule _ (variableName_inStep.bind fun _ => equality_inStep.bind fun _ => truthValue_inStep.map _)

theorem numberFirst_inStep : InStep bound 1 .any .any numberFirst numberFirst :=
  .rule _ (number_inStep.bind fun _ => comparison_inStep.bind fun _ => variableName_inStep.map _)

theorem numberLast_inStep : InStep bound 1 .any .any numberLast numberLast :=
  .rule _ (variableName_inStep.bind fun _ => comparison_inStep.bind fun _ => number_inStep.map _)

theorem interval_inStep : InStep bound 1 .any .any interval interval :=
  .rule _ (lowerBracket_inStep.bind fun _ => number_inStep.bind fun _ =>
    (plain_inStep (by decide) (by decide) rfl).bind fun _ => number_inStep.bind fun _ =>
      upperBracket_inStep.map _)

theorem membership_inStep : InStep bound 1 .any .any membership membership :=
  .rule _ (variableName_inStep.bind fun name => inWord_inStep.bind fun _ =>
    interval_inStep.map fun found => Condition.membership name found.1 found.2)

theorem condition_inStep : InStep bound 1 .any .any condition condition :=
  .orElse truthFirst_inStep (.orElse truthLast_inStep (.orElse numberFirst_inStep
    (.orElse numberLast_inStep membership_inStep)))

theorem conditions_inStep : InStep bound 1 .any .any conditions conditions :=
  .rule _ (condition_inStep.bind fun _ => (InStep.many
    ((plain_inStep (by decide) (by decide) rfl).bind fun _ => condition_inStep)).map _)

theorem guard_inStep : InStep bound 1 .any .any guard guard :=
  (plain_inStep (by decide) (by decide) rfl).bind fun _ => conditions_inStep.bind fun _ =>
    (plain_inStep (by decide) (by decide) rfl).map _

/-! ## Decisions and features -/

section

variable {inner inner' : Parser Decision}

theorem block_inStep (h : InStep bound 1 .any .any inner inner') :
    InStep bound 1 .any .any (block inner) (block inner') :=
  (plain_inStep (by decide) (by decide) rfl).bind fun _ => h.many.bind fun _ =>
    (plain_inStep (by decide) (by decide) rfl).map _

theorem body_inStep (h : InStep bound 1 .any .any inner inner') :
    InStep bound 1 .any .any (body inner) (body inner') :=
  .rule _ (block_inStep h)

theorem alternative_inStep (h : InStep bound 1 .any .any inner inner') :
    InStep bound 1 .any .any (alternative inner) (alternative inner') :=
  .rule _ (elseWord_inStep.bind fun _ => ifWord_inStep.bind fun _ => guard_inStep.bind fun _ =>
    (body_inStep h).optional.map _)

theorem closing_inStep (h : InStep bound 1 .any .any inner inner') :
    InStep bound 1 .any .any (closing inner) (closing inner') :=
  .rule _ (elseWord_inStep.bind fun _ => block_inStep h)

end

/-- Every level of nesting takes a token, so bounds on the depth do not matter that the
number of tokens does not reach. -/
theorem decision_inStep {depth depth' : Nat} (hdepth : bound ≤ depth) (hdepth' : bound ≤ depth') :
    InStep bound 1 .any .any (decision depth) (decision depth') := by
  induction bound generalizing depth depth' with
  | zero => exact fun m _ _ hm => absurd hm (Nat.not_lt_zero m)
  | succ bound ih =>
      obtain ⟨depth, rfl⟩ := Nat.exists_eq_succ_of_ne_zero (Nat.ne_zero_of_lt hdepth)
      obtain ⟨depth', rfl⟩ := Nat.exists_eq_succ_of_ne_zero (Nat.ne_zero_of_lt hdepth')
      have hinner := ih (Nat.le_of_succ_le_succ hdepth) (Nat.le_of_succ_le_succ hdepth')
      exact .rule _ (ifWord_inStep.step fun _ => guard_inStep.bind fun _ =>
        (body_inStep hinner).optional.bind fun _ => (alternative_inStep hinner).many.bind fun _ =>
          (closing_inStep hinner).optional.map _)

theorem item_inStep {depth depth' : Nat} {inner inner' : Parser (List Item)}
    (hdepth : bound ≤ depth) (hdepth' : bound ≤ depth')
    (h : InStep bound 1 .any .any inner inner') :
    InStep bound 1 .any .any (item depth inner) (item depth' inner') :=
  .orElse declaration_inStep (.orElse ((decision_inStep hdepth hdepth').map _) (h.map _))

theorem feature_inStep {depth depth' : Nat} (hdepth : bound ≤ depth) (hdepth' : bound ≤ depth') :
    InStep bound 1 .any .any (feature depth) (feature depth') := by
  induction bound generalizing depth depth' with
  | zero => exact fun m _ _ hm => absurd hm (Nat.not_lt_zero m)
  | succ bound ih =>
      obtain ⟨depth, rfl⟩ := Nat.exists_eq_succ_of_ne_zero (Nat.ne_zero_of_lt hdepth)
      obtain ⟨depth', rfl⟩ := Nat.exists_eq_succ_of_ne_zero (Nat.ne_zero_of_lt hdepth')
      have hle := Nat.le_of_succ_le_succ hdepth
      have hle' := Nat.le_of_succ_le_succ hdepth'
      exact .rule _ ((plain_inStep (by decide) (by decide) rfl).step fun _ =>
        (item_inStep hle hle' (ih hle hle')).many1.bind fun _ =>
          (plain_inStep (by decide) (by decide) rfl).map _)

/-! ## Whole texts -/

/-- What is read of a whole text depends on its tokens alone. -/
theorem source_run_eq {n : Nat} {text text' : List Char}
    (h : Alike .any n (skipGap text) (skipGap text')) :
    (source text.length).run text = (source text'.length).run text' := by
  have hlength := h.length_le
  have hgap := (gap_skipGap text).length_le
  have hgap' := (gap_skipGap text').length_le
  have hstep : InStep (n + 1) 1 .any .any (feature (text.length + 1))
      (feature (text'.length + 1)) :=
    feature_inStep (by omega) (by omega)
  rw [source_run, source_run]
  rcases hstep n _ _ (Nat.lt_succ_self n) h with
    ⟨hrun, hrun'⟩ | ⟨items, rest, rest', k, hrun, hrun', hrest, -⟩
  · rw [hrun, hrun', Option.bind_none]
  · rw [hrun, hrun', Option.bind_some, Option.bind_some]
    cases hrest with
    | nil => rfl
    | cons hstands hstands' _ => simp [hstands.ne_nil]

end Parser

namespace Feature

variable {source : List Char} {feature : Feature} {tokens : List Placed}

/-- What a text that follows the grammar is read as depends on its tokens alone. -/
theorem parse_eq_of_alike {source' : List Char} {n : Nat}
    (h : Alike .any n (skipGap source) (skipGap source')) (hgrammar : FollowsGrammar source) :
    parse source' = parse source := by
  have hsome := (Parser.source_run_isSome_iff source).mpr hgrammar
  unfold parse
  rw [← Parser.source_run_eq h]
  cases hrun : (Parser.source source.length).run source with
  | none =>
      rw [hrun] at hsome
      cases hsome
  | some found => rfl

theorem followsGrammar_of_parse (h : parse source = .ok feature) : FollowsGrammar source := by
  rw [← Parser.source_run_isSome_iff]
  unfold parse at h
  cases hrun : (Parser.source source.length).run source with
  | none =>
      rw [hrun] at h
      cases h
  | some found => rfl

theorem parse_insert (hgrammar : FollowsGrammar source) (htokens : TokensOf source tokens)
    {front place layout : List Char} (hsource : source = front ++ place)
    (hplace : BetweenTokens source tokens place) (hlayout : Layout layout) :
    parse (front ++ layout ++ place) = parse source := by
  obtain ⟨before, hbefore, hstart | ⟨token, htoken, hbehind⟩⟩ := hplace
  · -- The layout is put into the gap in front of the first token.
    obtain rfl : front = before := List.append_cancel_right (hsource.symm.trans hstart)
    have hskip : skipGap (front ++ layout ++ place) = skipGap source := by
      rw [List.append_assoc, hsource, hbefore.skipGap_append, hbefore.skipGap_append,
        hlayout.skipGap_append]
    refine parse_eq_of_alike (htokens.laid.alike ?_ rfl) hgrammar
    rw [hskip]
    exact htokens.laid
  · obtain ⟨gap, hgap, hfirst⟩ : ∃ gap, Layout gap ∧ source = gap ++ skipGap source := by
      obtain ⟨first, others, rfl⟩ := List.exists_cons_of_ne_nil (List.ne_nil_of_mem htoken)
      exact htokens.laid.exists_layout
    obtain ⟨middle, moved, hmiddle, -, hlaid, hletters⟩ :=
      htokens.laid.insert htoken hbefore hbehind hlayout
    obtain rfl : front = gap ++ middle := by
      rw [hmiddle, ← List.append_assoc] at hfirst
      exact List.append_cancel_right (hsource.symm.trans hfirst)
    have hskip : skipGap (gap ++ middle ++ layout ++ place) = middle ++ (layout ++ place) := by
      rw [List.append_assoc, List.append_assoc, hgap.skipGap_append, hlaid.skipGap_eq]
    refine parse_eq_of_alike (htokens.laid.alike ?_ hletters) hgrammar
    rw [hskip]
    exact hlaid

/-- **Layout never matters.**  A text that is read as a feature has one list of tokens.
With layout put between two of them, or before the first one or behind the last, it is
read as the same feature, and so is every text of the same tokens, whatever the gaps
between them.

A minus sign and the word for infinity behind it are two tokens.  Behind the last token a
comment from `//` need not have an end; what is put behind such a comment is a part of
it. -/
theorem parse_ignores_layout (h : parse source = .ok feature) :
    ∃ tokens, TokensOf source tokens ∧ (∀ tokens', TokensOf source tokens' → tokens' = tokens) ∧
      (∀ front place layout, source = front ++ place → BetweenTokens source tokens place →
        Layout layout → parse (front ++ layout ++ place) = .ok feature) ∧
      ∀ source' tokens', TokensOf source' tokens' →
        tokens'.map Placed.letters = tokens.map Placed.letters → parse source' = .ok feature := by
  have hgrammar := followsGrammar_of_parse h
  obtain ⟨tokens, htokens⟩ := exists_tokensOf_iff.mpr hgrammar
  refine ⟨tokens, htokens, fun tokens' htokens' => htokens'.unique htokens, ?_, ?_⟩
  · intro front place layout hsource hplace hlayout
    rw [parse_insert hgrammar htokens hsource hplace hlayout, h]
  · intro source' tokens' htokens' hletters
    rw [parse_eq_of_alike (htokens.laid.alike htokens'.laid hletters) hgrammar, h]

/-- A comment, whatever is in it, between a minus sign and its word. -/
theorem parse_ignores_layout_minus :
    ∃ feature, parse "[if(x<-Inf)]".toList = .ok feature ∧
      parse "[if(x<-/* ]-Inf */Inf)]".toList = .ok feature := by
  have hlaid : Laid .any [⟨['['], ['i', 'f', '(', 'x', '<', '-', 'I', 'n', 'f', ')', ']']⟩,
      ⟨['i', 'f'], ['(', 'x', '<', '-', 'I', 'n', 'f', ')', ']']⟩,
      ⟨['('], ['x', '<', '-', 'I', 'n', 'f', ')', ']']⟩,
      ⟨['x'], ['<', '-', 'I', 'n', 'f', ')', ']']⟩, ⟨['<'], ['-', 'I', 'n', 'f', ')', ']']⟩,
      ⟨['-'], ['I', 'n', 'f', ')', ']']⟩, ⟨infinityWord, [')', ']']⟩, ⟨[')'], [']']⟩, ⟨[']'], []⟩]
      ['[', 'i', 'f', '(', 'x', '<', '-', 'I', 'n', 'f', ')', ']'] := by
    have hif : IsName ['i', 'f'] := isName_of_word (by decide) (by decide)
    have hx : IsName ['x'] := isName_of_word (by decide) (by decide)
    have hless : IsComparison ['<'] := by simp [IsComparison]
    exact .cons (.mark (by decide) _) (.cons (.name hif (by decide)) (.cons (.mark (by decide) _)
      (.cons (.name hx (by decide)) (.cons (.operator hless fun _ => by decide)
        (.cons (.mark (by decide) _) (.cons (.infinity (by decide)) (.cons (.mark (by decide) _)
          (.cons (.mark (by decide) _) .nil))))))))
  have hread : (parse "[if(x<-Inf)]".toList).toOption.any (fun _ => true) = true := by
    decide +kernel
  obtain ⟨feature, hparse, -⟩ := exists_ok_of_any hread
  refine ⟨feature, hparse, ?_⟩
  obtain ⟨tokens, htokens, -, hinsert, -⟩ := parse_ignores_layout hparse
  obtain rfl := htokens.laid.unique hlaid
  refine hinsert ['[', 'i', 'f', '(', 'x', '<', '-'] ['I', 'n', 'f', ')', ']']
    ['/', '*', ' ', ']', '-', 'I', 'n', 'f', ' ', '*', '/'] rfl ?_ ?_
  · exact ⟨[], .none, .inr ⟨⟨['-'], ['I', 'n', 'f', ')', ']']⟩, by simp, rfl⟩⟩
  · exact .block [' ', ']', '-', 'I', 'n', 'f', ' '] (by decide) .none

end Feature
end DecisionTuples
