import DecisionTuples.Proofs.Grammar.Continuation
import DecisionTuples.Proofs.Grammar.Language

/-!
# Reports point at a place up to which the text is fine

The report about an unreadable text names the furthest place at which a rule was tried in
vain.  `Feature.parse_position_viable` says that the text before this place is the
beginning of a text that follows the grammar.

A rule is tried within rules that have been read in part, and within repetitions and optional
parts that may have been given up later.  Whatever was tried, what stands before the place
was read for it, and can be completed (`Reaches`).  `Parser.Tracks` says so of one parser:
it leaves the furthest place where it was, or moves it to a place that its form reaches.
There is one rule for each combinator.

Line and column count from the start of the text, where a carriage return and the line feed
behind it end one line.  They still tell any two places of a text apart
(`Position.offset_unique`).
-/

namespace DecisionTuples

/-! ## The furthest place of one parser -/

namespace Parser

variable {α β : Type} {p q : Parser α} {form first second : Form}

/-- The furthest place stays where it was, or is one that the form reaches. -/
def Moves (form : Form) (text : List Char) (before after : Furthest) : Prop :=
  after.remaining = before.remaining ∨
    ∃ place, after.remaining = place.length ∧ Reaches form text place

theorem Moves.mono {form form' : Form} {text text' : List Char} {before after : Furthest}
    (h : Moves form text before after)
    (himp : ∀ place, Reaches form text place → Reaches form' text' place) :
    Moves form' text' before after := by
  rcases h with h | ⟨place, hplace, hreaches⟩
  · exact .inl h
  · exact .inr ⟨place, hplace, himp place hreaches⟩

theorem Moves.trans {text : List Char} {before between after : Furthest}
    (h : Moves form text before between) (h' : Moves form text between after) :
    Moves form text before after := by
  rcases h' with h' | h'
  · unfold Moves
    rwa [h']
  · exact .inr h'

/-- Recording a failure leaves the furthest place or moves it to the start of the rule. -/
theorem Moves.record {text : List Char} {before after : Furthest} (hform : form.EndFree)
    (h : Moves form text before after) (name : Rule) (count : Nat) :
    Moves form text before (after.record name text.length count) := by
  have hhere : Reaches form text text := .here hform text
  unfold Furthest.record
  split
  · exact h
  · split
    · exact .inr ⟨text, rfl, hhere⟩
    · split
      · exact .inr ⟨text, rfl, hhere⟩
      · exact h

/-- What the parser reads is a word of the form, and if the end of the text does not occur
in the form, all that is tried is tried at places that it reaches. -/
structure Tracks (p : Parser α) (form : Form) : Prop where
  sound : p.Sound form
  moves : form.EndFree → ∀ text furthest,
    Moves form (skipGap text) furthest (p.track (skipGap text) furthest)

/-- A piece of text that is read as a whole. -/
theorem Tracks.lexeme {read : List Char → Option (α × List Char)} (h : Reads read form) :
    (lexeme read).Tracks form :=
  ⟨.lexeme h, fun _ _ _ => .inl rfl⟩

theorem Tracks.fail : (fail : Parser α).Tracks form := ⟨.fail, fun _ _ _ => .inl rfl⟩

theorem Tracks.rule {name : Rule} (h : p.Tracks name.form) :
    (rule name p).Tracks (.rule name) := by
  refine ⟨.rule h.sound, fun hname text furthest => ?_⟩
  have hmoves : Moves (.rule name) (skipGap text) furthest (p.track (skipGap text) furthest) :=
    (h.moves (Rule.endFree hname) text furthest).mono fun _ hreaches =>
      hreaches.mono fun _ _ => .rule
  unfold Parser.rule
  dsimp only
  split
  · exact hmoves
  · exact hmoves.record hname name _

theorem track_bind (p : Parser α) (f : α → Parser β) (text : List Char) (furthest : Furthest) :
    (p >>= f).track text furthest = match p.run text with
      | none => p.track text furthest
      | some (a, rest) => (f a).track rest (p.track text furthest) := rfl

theorem Tracks.bind {f : α → Parser β} (hp : p.Tracks first) (hf : ∀ a, (f a).Tracks second) :
    (p >>= f).Tracks (.sequence first second) := by
  refine ⟨hp.sound.bind fun a => (hf a).sound, fun hform text furthest => ?_⟩
  have hfirst := (hp.moves hform.1 text furthest).mono fun _ hreaches => hreaches.of_first hform.2
  rw [track_bind]
  split
  · exact hfirst
  · next a rest ha =>
      obtain ⟨middle, hmiddle, rfl⟩ := hp.sound text a rest ha
      have hsecond := (hf a).moves hform.2 middle (p.track (skipGap text) furthest)
      exact hfirst.trans (hsecond.mono fun _ hreaches =>
        .of_second hmiddle hform.1 (gap_skipGap middle) hreaches)

theorem Tracks.map (hp : p.Tracks form) (g : α → β) :
    (p >>= fun a => pure (g a)).Tracks form := by
  refine ⟨hp.sound.map g, fun hform text furthest => ?_⟩
  have hsame : (p >>= fun a => (pure (g a) : Parser β)).track (skipGap text) furthest =
      p.track (skipGap text) furthest := by
    rw [track_bind]
    split <;> rfl
  rw [hsame]
  exact hp.moves hform text furthest

theorem Tracks.orElse (hp : p.Tracks first) (hq : q.Tracks second) :
    (orElse p q).Tracks (.choice first second) := by
  refine ⟨hp.sound.orElse hq.sound, fun hform text furthest => ?_⟩
  have hfirst : Moves (.choice first second) (skipGap text) furthest
      (p.track (skipGap text) furthest) :=
    (hp.moves hform.1 text furthest).mono fun _ hreaches => hreaches.mono fun _ _ => .left
  unfold Parser.orElse
  dsimp only
  split
  · exact hfirst
  · refine hfirst.trans ((hq.moves hform.2 text _).mono fun _ hreaches => ?_)
    exact hreaches.mono fun _ _ => .right

theorem Tracks.optional (hp : p.Tracks form) : (optional p).Tracks (.optionally form) :=
  ⟨hp.sound.optional, fun hform text furthest =>
    (hp.moves hform text furthest).mono fun _ hreaches => hreaches.mono fun _ _ => .present⟩

/-- Each repetition tries its word behind the words before it. -/
theorem Tracks.trackMany (hp : p.Tracks form) (hform : form.EndFree) (bound : Nat)
    (text : List Char) (furthest : Furthest) :
    Moves (.repeated form) (skipGap text) furthest
      (trackMany p bound (skipGap text) furthest) := by
  induction bound generalizing text furthest with
  | zero => exact .inl rfl
  | succ bound ih =>
      have hfirst := (hp.moves hform text furthest).mono fun _ hreaches => hreaches.of_one
      rw [Parser.trackMany]
      split
      · exact hfirst
      · next a rest ha =>
          obtain ⟨middle, hmiddle, rfl⟩ := hp.sound text a rest ha
          have hrest := ih middle (p.track (skipGap text) furthest)
          exact hfirst.trans (hrest.mono fun _ hreaches =>
            .of_more hmiddle hform (gap_skipGap middle) hreaches)

theorem Tracks.many (hp : p.Tracks form) : (many p).Tracks (.repeated form) :=
  ⟨hp.sound.many, fun hform text furthest => hp.trackMany hform _ text furthest⟩

theorem Tracks.many1 (hp : p.Tracks form) : (many1 p).Tracks (.repeated1 form) :=
  hp.bind fun _ => hp.many.map _

/-! ## Tokens -/

theorem literal_tracks (letters : List Char) : (literal letters).Tracks (.symbol letters) :=
  .lexeme (symbol_reads letters)

theorem word_tracks (letters : List Char) : (word letters).Tracks (.word letters) :=
  .lexeme (word_reads letters)

theorem ifWord_tracks : ifWord.Tracks (.rule .ifWord) := .rule (word_tracks _)

theorem elseWord_tracks : elseWord.Tracks (.rule .elseWord) := .rule (word_tracks _)

theorem truthValue_tracks : truthValue.Tracks (.rule .truthValue) :=
  .rule (.lexeme truthValue_reads)

theorem equality_tracks : equality.Tracks (.rule .equality) := .rule (.lexeme equality_reads)

theorem comparison_tracks : comparison.Tracks (.rule .comparison) :=
  .rule (.lexeme comparison_reads)

theorem variableName_tracks : variableName.Tracks (.rule .variableName) :=
  .rule (.lexeme variableName_reads)

theorem number_tracks : number.Tracks (.rule .number) := .rule (.lexeme number_reads)

/-! ## Conditions and declarations -/

theorem interval_tracks : interval.Tracks (.rule .interval) := by
  have hlower : lowerBracket.Tracks (.rule .lowerBracket) :=
    .rule (.lexeme (bracket_reads (by decide) true false))
  have hupper : upperBracket.Tracks (.rule .upperBracket) :=
    .rule (.lexeme (bracket_reads (by decide) true false))
  exact .rule (hlower.bind fun _ => number_tracks.bind fun _ => (literal_tracks _).bind fun _ =>
    number_tracks.bind fun _ => hupper.map _)

theorem condition_tracks : condition.Tracks .condition := by
  refine .orElse ?_ (.orElse ?_ (.orElse ?_ (.orElse ?_ ?_)))
  · exact .rule (truthValue_tracks.bind fun _ => equality_tracks.bind fun _ =>
      variableName_tracks.map _)
  · exact .rule (variableName_tracks.bind fun _ => equality_tracks.bind fun _ =>
      truthValue_tracks.map _)
  · exact .rule (number_tracks.bind fun _ => comparison_tracks.bind fun _ =>
      variableName_tracks.map _)
  · exact .rule (variableName_tracks.bind fun _ => comparison_tracks.bind fun _ =>
      number_tracks.map _)
  · have hin : inWord.Tracks (.rule .inWord) := .rule (word_tracks _)
    exact .rule (variableName_tracks.bind fun name => hin.bind fun _ =>
      interval_tracks.map fun found => Condition.membership name found.1 found.2)

theorem conditions_tracks : conditions.Tracks (.rule .conditions) :=
  .rule (condition_tracks.bind fun _ =>
    (Tracks.many ((literal_tracks _).bind fun _ => condition_tracks)).map _)

theorem guard_tracks : guard.Tracks .guard :=
  (literal_tracks _).bind fun _ => conditions_tracks.bind fun _ => (literal_tracks _).map _

theorem typeExpr_tracks : typeExpr.Tracks
    (.oneOf [.rule .boolType, .rule .intType, .rule .preciseType, .rule .numType]) := by
  refine .orElse (.rule ?_) (.orElse (.rule ?_) (.orElse (.rule ?_) (.rule ?_)))
  · exact (literal_tracks _).map _
  · exact (literal_tracks _).map _
  · have hprecision : precision.Tracks (.rule .precision) := .rule (.lexeme precision_reads)
    exact (literal_tracks _).bind fun _ => (literal_tracks _).bind fun _ =>
      hprecision.bind fun _ => (literal_tracks _).map _
  · exact (literal_tracks _).map _

theorem declaration_tracks : declaration.Tracks (.rule .declaration) := by
  have hvar : varWord.Tracks (.rule .varWord) := .rule (word_tracks _)
  exact .rule (hvar.bind fun _ => variableName_tracks.bind fun _ => (literal_tracks _).bind
    fun _ => typeExpr_tracks.map _)

/-! ## Decisions and features -/

section

variable {inner : Parser Decision} (h : inner.Tracks (.rule .decision))

include h

theorem block_tracks : (block inner).Tracks .block :=
  (literal_tracks _).bind fun _ => h.many.bind fun _ => (literal_tracks _).map _

theorem body_tracks : (body inner).Tracks (.rule .body) := .rule (block_tracks h)

theorem alternative_tracks : (alternative inner).Tracks (.rule .alternative) :=
  .rule (elseWord_tracks.bind fun _ => ifWord_tracks.bind fun _ => guard_tracks.bind fun _ =>
    (body_tracks h).optional.map _)

theorem closing_tracks : (closing inner).Tracks (.rule .closing) :=
  .rule (elseWord_tracks.bind fun _ => block_tracks h)

end

theorem decision_tracks (depth : Nat) : (decision depth).Tracks (.rule .decision) := by
  induction depth with
  | zero => exact .fail
  | succ depth ih =>
      exact .rule (ifWord_tracks.bind fun _ => guard_tracks.bind fun _ =>
        (body_tracks ih).optional.bind fun _ => (alternative_tracks ih).many.bind fun _ =>
          (closing_tracks ih).optional.map _)

theorem feature_tracks (depth : Nat) : (feature depth).Tracks (.rule .feature) := by
  induction depth with
  | zero => exact .fail
  | succ depth ih =>
      have hitem : (item depth (feature depth)).Tracks .item :=
        declaration_tracks.orElse (((decision_tracks depth).map _).orElse (ih.map _))
      exact .rule ((literal_tracks _).bind fun _ => hitem.many1.bind fun _ =>
        (literal_tracks _).map _)

/-! ## Whole texts -/

/-- A feature with a gap behind it. -/
def featureAndGap : Form := .sequence (.rule .feature) .nothing

theorem featureAndGap_endFree : featureAndGap.EndFree := ⟨⟨nofun, nofun⟩, trivial⟩

/-- A failure at the end of the text is recorded behind the gap that follows the feature. -/
theorem endOfInput_track (text : List Char) (furthest : Furthest) :
    Moves .nothing text furthest (endOfInput.track text furthest) := by
  have hnothing : Form.nothing.EndFree := trivial
  have hstays : Moves .nothing text furthest furthest := .inl rfl
  unfold endOfInput Parser.rule token
  dsimp only
  split
  · exact hstays
  · exact hstays.record hnothing _ _

/-- Behind the gap at the front of a text, all that is tried is tried at places that the
feature and the gap behind it reach. -/
theorem file_track (source : List Char) (depth : Nat) (furthest : Furthest) :
    ((file depth).track source furthest).remaining = source.length ∨
      Moves featureAndGap (skipGap source) furthest ((file depth).track source furthest) := by
  have hfeature := feature_tracks depth
  have hform : featureAndGap.EndFree := featureAndGap_endFree
  have hwhole : Moves featureAndGap (skipGap source) furthest
      ((gap >>= fun _ => feature depth >>= fun items => endOfInput >>= fun _ =>
        (pure items : Parser (List Item))).track source furthest) := by
    have hfirst := (hfeature.moves hform.1 source furthest).mono fun _ hreaches =>
      hreaches.of_first hform.2
    rw [track_bind, gap_run]
    change Moves featureAndGap _ furthest ((feature depth >>= _).track _ furthest)
    rw [track_bind]
    split
    · exact hfirst
    · next items rest hrun =>
        obtain ⟨last, hlast, rfl⟩ := hfeature.sound source items rest hrun
        rw [track_bind]
        have hend := (endOfInput_track (skipGap last)
          ((feature depth).track (skipGap source) furthest)).mono fun place hreaches =>
            Reaches.of_second hlast hform.1 (gap_skipGap last) hreaches
        split
        · exact hfirst.trans hend
        · exact hfirst.trans hend
  unfold file Parser.rule
  dsimp only
  split
  · exact .inr hwhole
  · -- A failure of the whole is recorded at the start.
    unfold Furthest.record
    split
    · exact .inr hwhole
    · split
      · exact .inl rfl
      · split
        · exact .inl rfl
        · exact .inr hwhole

end Parser

/-- The text before the place can be continued to one that follows the grammar. -/
def Viable (source place : List Char) : Prop :=
  ∃ front completion, source = front ++ place ∧ FollowsGrammar (front ++ completion)

/-- What can be completed to a feature can be completed to a text. -/
theorem viable_of_reaches {source place : List Char}
    (h : Reaches Parser.featureAndGap (skipGap source) place) : Viable source place := by
  obtain ⟨behind, completion, hbehind, hderives⟩ := h
  have hgap : Gap source (behind ++ place) := hbehind ▸ gap_skipGap source
  obtain ⟨front, rfl, hfront⟩ := hgap.continued
  obtain ⟨start, hstart, hsequence⟩ := hderives []
  obtain ⟨last, next, hfeature, hlast, hnothing⟩ := derives_sequence_iff.mp hsequence
  cases hnothing
  refine ⟨front ++ behind, '\n' :: (completion ++ ['\n']), by simp, ?_⟩
  refine (Parser.followsGrammar_iff _).mpr
    ⟨start, last, ?_, hfeature, hlast.trans (gap_newline [])⟩
  rw [List.append_assoc]
  exact (hfront _).trans hstart

/-- The start of a text is viable. -/
theorem viable_start (source : List Char) : Viable source source := by
  have hstart := viable_of_reaches (.here Parser.featureAndGap_endFree (skipGap source))
  obtain ⟨front, completion, -, hgrammar⟩ := hstart
  exact ⟨[], front ++ completion, rfl, hgrammar⟩

/-- **The place of a report is viable.** -/
theorem Report.viable (source : List Char) :
    (Report.of source).offset ≤ source.length ∧
      Viable source (source.drop (Report.of source).offset) := by
  -- The place that was found is told by what is left of the text.
  have hplace : ∃ place, ((Parser.source source.length).track source
      (.start source.length)).remaining = place.length ∧ Viable source place := by
    rcases Parser.file_track source (source.length + 1) (.start source.length) with
      hstart | hstart | ⟨place, hplace, hreaches⟩
    · exact ⟨source, hstart, viable_start source⟩
    · exact ⟨source, hstart, viable_start source⟩
    · exact ⟨place, hplace, viable_of_reaches hreaches⟩
  obtain ⟨place, hremaining, hviable⟩ := hplace
  have hoffset : (Report.of source).offset = source.length - place.length :=
    congrArg (source.length - ·) hremaining
  obtain ⟨front, completion, hsource, -⟩ := id hviable
  rw [hoffset]
  refine ⟨Nat.sub_le _ _, ?_⟩
  have hdrop : source.drop (source.length - place.length) = place := by
    simp [hsource]
  rwa [hdrop]

/-! ## Line and column -/

namespace Position

/-- The place behind one more character. -/
def step (position : Position) (c : Char) : Position :=
  if c = '\n' then ⟨position.line + 1, 1⟩ else ⟨position.line, position.column + 1⟩

/-- A line feed ends its line whether or not a carriage return is before it. -/
theorem advance_concat (position : Position) (text : List Char) (c : Char) :
    position.advance (text ++ [c]) = (position.advance text).step c := by
  fun_induction advance position text with
  | case1 position =>
      by_cases hc : c = '\n'
      · subst hc
        rfl
      · simp [advance, step, hc]
  | case2 position rest ih => exact ih
  | case3 position rest ih => exact ih
  | case4 position d rest hreturn hfeed ih =>
      by_cases hline : rest = [] ∧ d = '\r' ∧ c = '\n'
      · -- Here the line feed goes with the carriage return, and the column is forgotten.
        obtain ⟨rfl, rfl, rfl⟩ := hline
        rfl
      · rw [List.cons_append, advance.eq_4 _ _ _ ?_ hfeed]
        · exact ih
        · rintro rest' rfl hrest
          cases rest with
          | nil =>
              cases hrest
              exact hline ⟨rfl, rfl, rfl⟩
          | cons e rest =>
              cases hrest
              exact hreturn rest rfl rfl

/-- One place is before another one. -/
def Before (position position' : Position) : Prop :=
  position.line < position'.line ∨
    position.line = position'.line ∧ position.column < position'.column

theorem before_step (position : Position) (c : Char) : position.Before (position.step c) := by
  unfold step
  split
  · exact .inl (Nat.lt_succ_self _)
  · exact .inr ⟨rfl, Nat.lt_succ_self _⟩

theorem Before.trans {a b c : Position} (h : a.Before b) (h' : b.Before c) : a.Before c := by
  unfold Before at *
  omega

theorem Before.ne {a b : Position} (h : a.Before b) : a ≠ b := by
  rintro rfl
  unfold Before at h
  omega

/-- Reading on leads to a later place. -/
theorem after_before_append (text : List Char) {more : List Char} (h : more ≠ []) :
    (after text).Before (after (text ++ more)) := by
  induction more using List.reverseRecOn with
  | nil => exact absurd rfl h
  | append_singleton more c ih =>
      rw [← List.append_assoc, after, after, advance_concat]
      have hstep := before_step (advance ⟨1, 1⟩ (text ++ more)) c
      by_cases hmore : more = []
      · subst hmore
        rw [List.append_nil] at hstep ⊢
        exact hstep
      · exact (ih hmore).trans hstep

/-- Line and column tell the places of a text apart. -/
theorem offset_unique {text : List Char} {i j : Nat} (hi : i ≤ text.length)
    (hj : j ≤ text.length) (h : after (text.take i) = after (text.take j)) : i = j := by
  by_contra hne
  wlog hlt : i < j generalizing i j
  · exact this hj hi h.symm (Ne.symm hne) (by omega)
  have hsplit : text.take j = text.take i ++ (text.drop i).take (j - i) := by
    rw [← List.take_add]
    congr 1
    omega
  have hmore : (text.drop i).take (j - i) ≠ [] := by
    rw [← List.length_pos_iff, List.length_take, List.length_drop]
    omega
  rw [hsplit] at h
  exact (after_before_append _ hmore).ne h

end Position

/-- **A report never points past what can be continued.**  The line and the column of the
error about an unreadable text are those of just one place in the text, and what stands
before this place is the beginning of a text that follows the grammar and is readable. -/
theorem Feature.parse_position_viable {source : List Char} {error : ParseError}
    {position : Position} (h : Feature.parse source = .error error)
    (hposition : error.position? = some position) :
    ∃ offset ≤ source.length, Position.after (source.take offset) = position ∧
      (∀ other ≤ source.length, Position.after (source.take other) = position →
        other = offset) ∧
      ∃ accepted, source.take offset <+: accepted ∧ FollowsGrammar accepted ∧
        ∀ report, Feature.parse accepted ≠ .error (.unreadable report) := by
  cases error with
  | precision literal => cases hposition
  | unreadable report =>
      cases hposition
      obtain ⟨-, rfl⟩ := Feature.parse_eq_unreadable_iff.mp h
      obtain ⟨hoffset, front, completion, hsource, hgrammar⟩ := Report.viable source
      refine ⟨_, hoffset, rfl, fun other hother hsame => ?_, front ++ completion, ?_, hgrammar,
        ?_⟩
      · exact Position.offset_unique hother hoffset hsame
      · obtain rfl : source.take (Report.of source).offset = front := by
          have hsplit := source.take_append_drop (Report.of source).offset
          exact List.append_cancel_right (hsplit.trans hsource)
        exact List.prefix_append _ completion
      · intro report hreport
        obtain ⟨hrun, -⟩ := Feature.parse_eq_unreadable_iff.mp hreport
        have hsome := (Parser.source_run_isSome_iff _).mpr hgrammar
        rw [hrun] at hsome
        cases hsome

/-- The text ends in a comment, with a feature, a decision and a comparison still open.  The
report is about the place behind the comment. -/
theorem Feature.parse_position_viable_in_comment :
    ∃ error, Feature.parse "[ var x: num\r\nif (x < 5 && y // c".toList = .error error ∧
      error.position? = some ⟨2, 20⟩ ∧
      ∃ offset ≤ 33, Position.after
          ("[ var x: num\r\nif (x < 5 && y // c".toList.take offset) = ⟨2, 20⟩ ∧
        (∀ other ≤ 33, Position.after
            ("[ var x: num\r\nif (x < 5 && y // c".toList.take other) = ⟨2, 20⟩ →
          other = offset) ∧
        ∃ accepted, "[ var x: num\r\nif (x < 5 && y // c".toList.take offset <+: accepted ∧
          FollowsGrammar accepted ∧
          ∀ report, Feature.parse accepted ≠ .error (.unreadable report) := by
  obtain ⟨letters, hletters, hlength, hunread, hposition⟩ : ∃ letters,
      "[ var x: num\r\nif (x < 5 && y // c".toList = letters ∧ letters.length = 33 ∧
        ((Parser.source letters.length).run letters).isNone = true ∧
          (Report.of letters).position = ⟨2, 20⟩ :=
    ⟨_, String.toList_ofList, rfl, by decide +kernel, by decide +kernel⟩
  have herror := Feature.parse_eq_unreadable_iff.mpr ⟨Option.isNone_iff_eq_none.mp hunread, rfl⟩
  rw [hletters, ← hlength]
  exact ⟨_, herror, congrArg some hposition,
    Feature.parse_position_viable herror (congrArg some hposition)⟩

end DecisionTuples
