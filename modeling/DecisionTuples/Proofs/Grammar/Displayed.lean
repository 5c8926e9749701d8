import DecisionTuples.Proofs.Grammar.Clause
import DecisionTuples.Proofs.Json.Number

/-!
# Displayed segments are source text

A segment is displayed by one piece of code and intervals are read by another.  They agree
on brackets, on bounds and on the word for infinity, so that a displayed segment can be
put into a feature as it is (`Segment.parse_displayed`).

The bounds are where this needs an argument.  A finite bound is displayed with its shortest
digits and without exponent, however many zeros this takes.  These digits are a numeral of
the language (`Decimal.exists_numeral_positional`), and its value is the bound, since the
shortest digits read as their number.  The comma or bracket behind a bound ends it as a
numeral and as a word (`Delimits`).

The rest follows the constructs of the language from the inside out: the interval, the
condition, the decision with this one condition, and the feature.
-/

namespace DecisionTuples

/-! ## Positional digits -/

theorem Json.IsWhole.isDigits {whole : List Char} (h : IsWhole whole) : IsDigits whole := by
  rcases h with rfl | ⟨hne, -, hall⟩
  · exact ⟨List.cons_ne_nil _ _, List.forall_mem_singleton.mpr rfl⟩
  · exact ⟨hne, hall⟩

namespace Decimal

/-- The positional form of a decimal spells a numeral of its value. -/
theorem exists_numeral_positional {d : Decimal} (hdigits : 0 < d.digits)
    (hexponent : d.exponent ≤ 400) :
    ∃ numeral : Numeral, numeral.Valid ∧ numeral.spelling.toList = d.positional ∧
      ∀ negative, numeral.value negative = d.toNumber negative := by
  by_cases hsign : d.exponent < 0
  · obtain ⟨whole, fraction, hwhole, hne, hfraction, htext, hvalue⟩ :=
      Json.exists_positional_eq hdigits hsign
    refine ⟨⟨whole, fraction⟩, ⟨hwhole.isDigits, hfraction⟩, ?_, fun negative => ?_⟩
    · rw [Numeral.toList_spelling, if_neg hne, htext]
    · rw [Numeral.value, hvalue]
  · obtain ⟨digits, exponent⟩ := d
    obtain ⟨exponent, rfl⟩ : ∃ e : Nat, exponent = e :=
      Int.eq_ofNat_of_zero_le (by dsimp only at hsign; omega)
    have hwhole := Json.isWhole_positional hdigits exponent
    have hvalue : Decimal.ofDigits (Decimal.mk digits exponent).positional [] =
        ⟨digits * tenTo exponent, 0⟩ := by
      rw [Decimal.ofDigits, Json.positional_whole, List.append_nil, Nat.ofDigitChars_append,
        Nat.ofDigitChars_ten_toDigits, Nat.ofDigitChars_replicate_zero, Nat.mul_comm]
      rfl
    refine ⟨⟨(Decimal.mk digits exponent).positional, []⟩,
      ⟨hwhole.isDigits, List.forall_mem_nil _⟩, ?_, fun negative => ?_⟩
    · rw [Numeral.toList_spelling, if_pos rfl, List.append_nil]
    · rw [Numeral.value, hvalue, toNumber_mul_tenTo (by dsimp only at hexponent; omega)]

end Decimal

/-! ## Displayed numbers -/

/-- What stands behind a bound in a displayed segment: a comma, or a bracket. -/
def Delimits (rest : List Char) : Prop := Avoids (fun c => isWordChar c = true ∨ c = '.') rest

theorem Delimits.atWordEnd {rest : List Char} (h : Delimits rest) : AtWordEnd rest :=
  fun c hc => Bool.eq_false_iff.mpr fun hword => h c hc (.inl hword)

theorem isWordChar_of_isDigit {c : Char} (h : c.isDigit = true) : isWordChar c = true := by
  simp [isWordChar, Char.isAlphanum, h]

theorem Delimits.avoids {rest : List Char} (h : Delimits rest) :
    Avoids (fun c => c.isDigit = true ∨ c = '.') rest :=
  fun c hc hkind => h c hc (hkind.imp isWordChar_of_isDigit id)

namespace Number

/-- The digits of a magnitude, or the word for infinity, as they are displayed. -/
def plainMagnitude (rank : Nat) : List Char :=
  if rank = infiniteRank then infinityWord
  else if rank = 0 then ['0']
  else (Decimal.shortest .upward rank).positional

theorem toList_boundText (negative : Bool) (rank : Fin (infiniteRank + 1)) :
    (signed negative rank).boundText.toList = withSign negative (plainMagnitude rank.val) :=
  String.toList_ofList

/-- A displayed magnitude below infinity spells a numeral of its value. -/
theorem exists_numeral_plainMagnitude {rank : Nat} (h : rank < infiniteRank) :
    ∃ numeral : Numeral, numeral.Valid ∧ numeral.spelling.toList = plainMagnitude rank ∧
      ∀ negative, numeral.value negative = .ofRank negative rank := by
  unfold plainMagnitude
  rw [if_neg h.ne]
  by_cases hzero : rank = 0
  · rw [if_pos hzero, hzero]
    have hvalid : Numeral.Valid ⟨['0'], []⟩ :=
      ⟨⟨List.cons_ne_nil _ _, List.forall_mem_singleton.mpr rfl⟩, nofun⟩
    refine ⟨⟨['0'], []⟩, hvalid, Numeral.toList_spelling _, fun negative => ?_⟩
    rw [Numeral.value]
    exact if_pos rfl
  · rw [if_neg hzero]
    have hpos := Nat.pos_of_ne_zero hzero
    have hreads := Decimal.shortest_readsAs .upward h
    have hdigits := Nat.pos_of_ne_zero (hreads.digits_ne_zero h.le hpos)
    obtain ⟨numeral, hvalid, htext, hvalue⟩ :=
      Decimal.exists_numeral_positional hdigits (hreads.exponent_le hpos h)
    exact ⟨numeral, hvalid, htext, fun negative =>
      (hvalue negative).trans (hreads.toNumber_eq h.le negative)⟩

theorem opens_plainMagnitude (rank : Fin (infiniteRank + 1)) :
    Opens (fun c => Solid c ∧ c ≠ '-') (plainMagnitude rank.val) := by
  by_cases hrank : rank.val = infiniteRank
  · rw [plainMagnitude, if_pos hrank]
    exact ⟨'I', rfl, by decide⟩
  · have hfinite : rank.val < infiniteRank := by omega
    obtain ⟨numeral, hvalid, htext, -⟩ := exists_numeral_plainMagnitude hfinite
    rw [← htext]
    refine hvalid.opens.mono fun c hc => ⟨solid_of_isDigit hc, ?_⟩
    rintro rfl
    exact absurd hc (by decide)

theorem readsMagnitude_plainMagnitude (rank : Fin (infiniteRank + 1)) {rest : List Char}
    (hrest : Delimits rest) : ReadsMagnitude (plainMagnitude rank.val) rest rank.val := by
  by_cases hrank : rank.val = infiniteRank
  · rw [plainMagnitude, if_pos hrank]
    exact .inl ⟨hrank, stripWord?_eq_some_iff.mpr ⟨rfl, hrest.atWordEnd⟩⟩
  · have hfinite : rank.val < infiniteRank := by omega
    obtain ⟨numeral, hvalid, htext, hvalue⟩ := exists_numeral_plainMagnitude hfinite
    rw [← htext]
    exact readsMagnitude_numeral hvalid hvalue hrest.avoids

/-- A displayed bound is read back. -/
theorem readNumber?_boundText {a : Number} (h : a ≠ .nan) {rest : List Char}
    (hrest : Delimits rest) : readNumber? (a.boundText.toList ++ rest) = some (a, rest) := by
  cases a with
  | nan => exact absurd rfl h
  | signed negative rank =>
      rw [toList_boundText, ← ofRank_val]
      exact readNumber?_withSign (opens_plainMagnitude rank)
        (readsMagnitude_plainMagnitude rank hrest) negative

theorem opens_boundText {a : Number} (h : a ≠ .nan) : Opens Solid a.boundText.toList := by
  cases a with
  | nan => exact absurd rfl h
  | signed negative rank =>
      rw [toList_boundText]
      cases negative with
      | true => exact ⟨'-', rfl, by decide⟩
      | false => exact (opens_plainMagnitude rank).mono fun _ => And.left

end Number

/-! ## Displayed segments -/

theorem Opens.skipGap_append {text : List Char} (h : Opens Solid text) (rest : List Char) :
    skipGap (text ++ rest) = text ++ rest := by
  obtain ⟨c, tail, rfl, hsolid⟩ := h.exists_cons
  exact hsolid.skipGap_cons _

/-- A single space is all of the gap in front of a solid character. -/
theorem Solid.skipGap_space {c : Char} (h : Solid c) (rest : List Char) :
    skipGap (' ' :: c :: rest) = c :: rest := by
  rw [skipGap_blank (by decide), h.skipGap_cons]

theorem IsName.skipGap_append {name : List Char} (h : IsName name) (rest : List Char) :
    skipGap (name ++ rest) = name ++ rest :=
  (h.opens.mono fun _ => solid_of_isWordStart).skipGap_append rest

namespace Segment

/-- The text of a segment: a bracket, two bounds with a comma between them, a bracket. -/
theorem toList_text (segment : Segment) :
    segment.text.toList = segment.openness.lowerToken ++ (segment.interval.lo.boundText.toList ++
      ',' :: ' ' :: (segment.interval.hi.boundText.toList ++ segment.openness.upperToken)) := by
  obtain ⟨⟨lo, hi⟩, bounds⟩ := segment
  unfold text
  cases lo <;> cases hi <;> simp [Openness.lowerToken, Openness.upperToken]

/-- A displayed segment begins with a bracket. -/
theorem opens_text (segment : Segment) : Opens Solid segment.text.toList := by
  obtain ⟨⟨lo, hi⟩, bounds⟩ := segment
  rw [toList_text]
  cases lo
  all_goals exact ⟨_, rfl, by decide⟩

end Segment

namespace Parser

variable {α : Type} {rest : List Char}

/-- What a reader leaves behind a token, the token takes without the gap at its front. -/
theorem run_lexeme {read : List Char → Option (α × List Char)} {text : List Char} {a : α}
    (h : read text = some (a, rest)) : (lexeme read).run text = some (a, skipGap rest) := by
  rw [lexeme, run_token, h]
  rfl

theorem literal_run (symbol rest : List Char) :
    (literal symbol).run (symbol ++ rest) = some ((), skipGap rest) := by
  have hread : strip? symbol (symbol ++ rest) = some rest := strip?_eq_some_iff.mpr rfl
  exact run_lexeme (by rw [hread]; rfl)

theorem lowerBracket_run (openness : Openness) (text : List Char) :
    lowerBracket.run (openness.lowerToken ++ text) = some (openness.lo, skipGap text) := by
  obtain ⟨lo, hi⟩ := openness
  cases lo
  all_goals rfl

theorem upperBracket_run (openness : Openness) (text : List Char) :
    upperBracket.run (openness.upperToken ++ text) = some (openness.hi, skipGap text) := by
  obtain ⟨lo, hi⟩ := openness
  cases hi
  all_goals rfl

theorem number_run {a : Number} (h : a ≠ .nan) (hrest : Delimits rest) :
    number.run (a.boundText.toList ++ rest) = some (a, skipGap rest) :=
  run_lexeme (Number.readNumber?_boundText h hrest)

theorem delimits_upperToken (openness : Openness) (rest : List Char) :
    Delimits (openness.upperToken ++ rest) ∧
      skipGap (openness.upperToken ++ rest) = openness.upperToken ++ rest := by
  obtain ⟨lo, hi⟩ := openness
  cases hi
  all_goals
    refine ⟨?_, Solid.skipGap_cons (by decide) _⟩
    rintro c ⟨⟩
    decide

/-- A displayed segment is read as its bounds and its openness. -/
theorem interval_run {segment : Segment} (hlo : segment.interval.lo ≠ .nan)
    (hhi : segment.interval.hi ≠ .nan) (rest : List Char) :
    interval.run (segment.text.toList ++ rest) =
      some ((segment.interval, segment.openness), skipGap rest) := by
  obtain ⟨openness, ⟨lo, hi⟩⟩ := segment
  dsimp only at hlo hhi
  let last := hi.boundText.toList ++ (openness.upperToken ++ rest)
  have htext : (Segment.text ⟨openness, ⟨lo, hi⟩⟩).toList ++ rest =
      openness.lowerToken ++ (lo.boundText.toList ++ ',' :: ' ' :: last) := by
    rw [Segment.toList_text]
    simp [last]
  have hlower := lowerBracket_run openness (lo.boundText.toList ++ ',' :: ' ' :: last)
  have hfirst : number.run (lo.boundText.toList ++ ',' :: ' ' :: last) =
      some (lo, ',' :: ' ' :: last) := by
    have hcomma : skipGap (',' :: ' ' :: last) = ',' :: ' ' :: last :=
      Solid.skipGap_cons (by decide) _
    rw [number_run hlo (by rintro c ⟨⟩; decide), hcomma]
  have hcomma : (literal [',']).run (',' :: ' ' :: last) = some ((), last) := by
    have hgap : skipGap (' ' :: last) = last := by
      rw [skipGap_blank (by decide), (Number.opens_boundText hhi).skipGap_append]
    exact (literal_run [','] (' ' :: last)).trans (by rw [hgap])
  have hsecond : number.run last = some (hi, openness.upperToken ++ rest) := by
    obtain ⟨hdelimits, hsolid⟩ := delimits_upperToken openness rest
    rw [number_run hhi hdelimits, hsolid]
  have hupper := upperBracket_run openness rest
  rw [interval, run_rule, run_bind, htext, hlower, Option.bind_some,
    (Number.opens_boundText hlo).skipGap_append, run_bind, hfirst, Option.bind_some, run_bind,
    hcomma, Option.bind_some, run_bind, hsecond, Option.bind_some, run_bind, hupper]
  rfl

/-! ## A feature around a displayed segment -/

theorem many_run_nil {p : Parser α} {text : List Char} (hstop : p.run text = none) :
    (many p).run text = some ([], text) := by
  change some (runMany p (text.length + 1) text) = _
  rw [runMany, hstop]

theorem many_run_single {p : Parser α} {text : List Char} (hne : text ≠ []) {a : α}
    (h : p.run text = some (a, rest)) (hstop : p.run rest = none) :
    (many p).run text = some ([a], rest) := by
  obtain ⟨c, tail, rfl⟩ := List.exists_cons_of_ne_nil hne
  change some (runMany p (tail.length + 2) (c :: tail)) = _
  rw [runMany, h]
  dsimp only
  rw [runMany, hstop]

theorem optional_run_none {p : Parser α} {text : List Char} (h : p.run text = none) :
    (optional p).run text = some (none, text) := by
  unfold optional
  dsimp only
  rw [h]

/-- The text of a condition that the variable lies in the segment, and what is behind it. -/
def membershipText (name : String) (segment : Segment) (rest : List Char) : List Char :=
  name.toList ++ ' ' :: 'i' :: 'n' :: ' ' :: (segment.text.toList ++ rest)

/-- The text of a decision with this one condition, and what is behind it. -/
def decisionText (name : String) (segment : Segment) (rest : List Char) : List Char :=
  'i' :: 'f' :: ' ' :: '(' :: membershipText name segment (')' :: rest)

/-- The text of the declaration of a number, and what is behind it. -/
def declarationText (name : String) (rest : List Char) : List Char :=
  'v' :: 'a' :: 'r' :: ' ' :: (name.toList ++ ':' :: ' ' :: 'n' :: 'u' :: 'm' :: ' ' :: rest)

section

variable {name : String} (hname : NameWritable name)

/-- Behind the type there is something that is no parenthesis. -/
theorem typeExpr_run {c : Char} (hc : Solid c ∧ c ≠ '(') (rest : List Char) :
    typeExpr.run ('n' :: 'u' :: 'm' :: ' ' :: c :: rest) = some (.num, c :: rest) := by
  have hnum : (literal ['n', 'u', 'm']).run ('n' :: 'u' :: 'm' :: ' ' :: c :: rest) =
      some ((), c :: rest) := by
    refine (literal_run ['n', 'u', 'm'] (' ' :: c :: rest)).trans ?_
    rw [hc.1.skipGap_space]
  have hbool : (literal ['b', 'o', 'o', 'l']).run ('n' :: 'u' :: 'm' :: ' ' :: c :: rest) =
      none := rfl
  have hint : (literal ['i', 'n', 't']).run ('n' :: 'u' :: 'm' :: ' ' :: c :: rest) = none := rfl
  have hplain : (literal ['(']).run (c :: rest) = none := by
    rw [literal, lexeme, run_token, strip?, if_neg hc.2.symm]
    rfl
  simp [typeExpr, hnum, hbool, hint, hplain]

include hname

theorem declaration_run {c : Char} (hc : Solid c ∧ c ≠ '(') (rest : List Char) :
    declaration.run (declarationText name (c :: rest)) =
      some (.declaration name .num, c :: rest) := by
  let typed := 'n' :: 'u' :: 'm' :: ' ' :: c :: rest
  have hvar : varWord.run (declarationText name (c :: rest)) =
      some ((), name.toList ++ ':' :: ' ' :: typed) := by
    have hword : varWord.run (declarationText name (c :: rest)) =
        some ((), skipGap (' ' :: (name.toList ++ ':' :: ' ' :: typed))) := rfl
    rw [hword, skipGap_blank (by decide), hname.1.skipGap_append]
  have hvariable : variableName.run (name.toList ++ ':' :: ' ' :: typed) =
      some (name, ':' :: ' ' :: typed) := by
    have hread : readName? (name.toList ++ ':' :: ' ' :: typed) =
        some (name, ':' :: ' ' :: typed) :=
      hname.1.readName? (by rintro c ⟨⟩; decide)
    rw [variableName, run_rule, run_lexeme hread, Solid.skipGap_cons (by decide)]
  have hcolon : (literal [':']).run (':' :: ' ' :: typed) = some ((), typed) := by
    refine (literal_run [':'] (' ' :: typed)).trans ?_
    rw [Solid.skipGap_space (by decide)]
  rw [declaration, run_rule, run_bind, hvar, Option.bind_some, run_bind, hvariable,
    Option.bind_some, run_bind, hcolon, Option.bind_some, run_bind, typeExpr_run hc]
  rfl

variable {segment : Segment} (hlo : segment.interval.lo ≠ .nan)
  (hhi : segment.interval.hi ≠ .nan)

include hlo hhi

/-- The forms of a condition that stand before it fail at the name, or at the word `in`
behind the name. -/
theorem condition_run (rest : List Char) :
    condition.run (membershipText name segment rest) =
      some (.membership name segment.interval segment.openness, skipGap rest) := by
  let shown := segment.text.toList ++ rest
  have hlay : lay [shown] = shown := by
    rw [lay_cons]
    exact List.append_nil shown
  have hsolid : skipGap (lay [shown]) = shown := by
    rw [hlay]
    exact segment.opens_text.skipGap_append rest
  have htext : skipGap (lay [name.toList, ['i', 'n'], shown]) =
      membershipText name segment rest := by
    rw [skipGap_lay_cons (hname.1.opens.mono fun _ => solid_of_isWordStart), behind_cons, lay_cons,
      behind_cons, hlay]
    rfl
  have hbehind {text : List Char} : Anyhow text := trivial
  have htruthFirst : truthFirst.run (skipGap (lay [name.toList, ['i', 'n'], shown])) = none :=
    truthFirst_refuses hname [['i', 'n']] [shown] hbehind
  have htruthLast : truthLast.run (skipGap (lay [name.toList, ['i', 'n'], shown])) = none :=
    refuses_in equality_sound begins_equality hname.1 [] [shown] hbehind
  have hnumberFirst : numberFirst.run (skipGap (lay [name.toList, ['i', 'n'], shown])) = none :=
    numberFirst_refuses hname [['i', 'n']] [shown] hbehind
  have hnumberLast : numberLast.run (skipGap (lay [name.toList, ['i', 'n'], shown])) = none :=
    refuses_in comparison_sound begins_comparison hname.1 [] [shown] hbehind
  have hvariable : variableName.run (skipGap (lay [name.toList, ['i', 'n'], shown])) =
      some (name, skipGap (lay [['i', 'n'], shown])) :=
    variableName_takes hname.1 [['i', 'n'], shown] hbehind
  have hin : inWord.run (skipGap (lay [['i', 'n'], shown])) = some ((), skipGap (lay [shown])) :=
    inWord_takes [shown] hbehind
  have hmembership : membership.run (skipGap (lay [name.toList, ['i', 'n'], shown])) =
      some (.membership name segment.interval segment.openness, skipGap rest) := by
    rw [membership, run_rule, run_bind, hvariable, Option.bind_some, run_bind, hin,
      Option.bind_some, run_bind, hsolid, interval_run hlo hhi]
    rfl
  rw [← htext, condition, run_orElse, htruthFirst, Option.none_or, run_orElse, htruthLast,
    Option.none_or, run_orElse, hnumberFirst, Option.none_or, run_orElse, hnumberLast,
    Option.none_or, hmembership]

theorem guard_run (rest : List Char) :
    guard.run ('(' :: membershipText name segment (')' :: rest)) =
      some ([.membership name segment.interval segment.openness], skipGap rest) := by
  have hopen : (literal ['(']).run ('(' :: membershipText name segment (')' :: rest)) =
      some ((), membershipText name segment (')' :: rest)) := by
    refine (literal_run ['('] (membershipText name segment (')' :: rest))).trans ?_
    rw [membershipText, hname.1.skipGap_append]
  have hclosing : skipGap (')' :: rest) = ')' :: rest := Solid.skipGap_cons (by decide) rest
  have hothers : (many (literal ['&', '&'] >>= fun _ => condition)).run (')' :: rest) =
      some ([], ')' :: rest) := many_run_nil (by rw [run_bind]; rfl)
  have hconditions : conditions.run (membershipText name segment (')' :: rest)) =
      some ([.membership name segment.interval segment.openness], ')' :: rest) := by
    rw [conditions, run_rule, run_bind, condition_run hname hlo hhi, Option.bind_some, run_bind,
      hclosing, hothers]
    rfl
  have hclose : (literal [')']).run (')' :: rest) = some ((), skipGap rest) :=
    literal_run [')'] rest
  rw [guard, run_bind, hopen, Option.bind_some, run_bind, hconditions, Option.bind_some, run_bind,
    hclose]
  rfl

/-- At the end of the feature there are no further parts of the decision. -/
theorem decision_run (depth : Nat) (rest : List Char) :
    (decision (depth + 1)).run (decisionText name segment (' ' :: ']' :: rest)) =
      some (.leaf [.membership name segment.interval segment.openness], ']' :: rest) := by
  let guarded := membershipText name segment (')' :: ' ' :: ']' :: rest)
  have hif : ifWord.run ('i' :: 'f' :: ' ' :: '(' :: guarded) = some ((), '(' :: guarded) := by
    have hword : ifWord.run ('i' :: 'f' :: ' ' :: '(' :: guarded) =
        some ((), skipGap (' ' :: '(' :: guarded)) := rfl
    rw [hword, Solid.skipGap_space (by decide)]
  have hbody : (optional (body (decision depth))).run (']' :: rest) = some (none, ']' :: rest) :=
    optional_run_none (by rw [body, run_rule, block, run_bind]; rfl)
  have helseIfs : (many (alternative (decision depth))).run (']' :: rest) =
      some ([], ']' :: rest) := many_run_nil (by rw [alternative, run_rule, run_bind]; rfl)
  have hotherwise : (optional (closing (decision depth))).run (']' :: rest) =
      some (none, ']' :: rest) := optional_run_none (by rw [closing, run_rule, run_bind]; rfl)
  rw [decision, run_rule, run_bind, decisionText, hif, Option.bind_some, run_bind,
    guard_run hname hlo hhi, Option.bind_some, run_bind, Solid.skipGap_space (by decide), hbody,
    Option.bind_some, run_bind, helseIfs, Option.bind_some, run_bind, hotherwise]
  rfl

/-- The declaration and the decision are the two statements of the feature. -/
theorem feature_run (depth : Nat) :
    (feature (depth + 2)).run
        ('[' :: ' ' :: declarationText name (decisionText name segment [' ', ']'])) =
      some ([.declaration name .num,
        .decision (.leaf [.membership name segment.interval segment.openness])], []) := by
  let decided := decisionText name segment [' ', ']']
  let declared := declarationText name decided
  let statement := item (depth + 1) (feature (depth + 1))
  have hopen : (literal ['[']).run ('[' :: ' ' :: declared) = some ((), declared) := by
    refine (literal_run ['['] (' ' :: declared)).trans ?_
    rw [skipGap_blank (by decide)]
    exact congrArg (fun text => some ((), text)) (Solid.skipGap_cons (by decide) _)
  have hdeclaration : statement.run declared = some (.declaration name .num, decided) := by
    have hrun : declaration.run declared = some (.declaration name .num, decided) :=
      declaration_run hname (by decide) _
    simp only [statement, item]
    rw [run_orElse, hrun, Option.some_or]
  have hdecision : statement.run decided =
      some (.decision (.leaf [.membership name segment.interval segment.openness]), [']']) := by
    have hother : declaration.run decided = none := by
      rw [declaration, run_rule, run_bind]
      rfl
    simp only [statement, item]
    rw [run_orElse, hother, Option.none_or, run_orElse, run_bind, decision_run hname hlo hhi]
    rfl
  have hstop : statement.run [']'] = none := by
    have hdeclaration : declaration.run [']'] = none := by
      rw [declaration, run_rule, run_bind]
      rfl
    have hdecision : (decision (depth + 1)).run [']'] = none := by
      rw [decision, run_rule, run_bind]
      rfl
    have hnested : (feature (depth + 1)).run [']'] = none := by
      rw [feature, run_rule, run_bind]
      rfl
    simp only [statement, item]
    rw [run_orElse, hdeclaration, Option.none_or, run_orElse, run_bind, hdecision, run_bind,
      hnested]
    rfl
  have hstatements : (many1 statement).run declared = some ([.declaration name .num,
      .decision (.leaf [.membership name segment.interval segment.openness])], [']']) := by
    have hmany : (many statement).run decided =
        some ([.decision (.leaf [.membership name segment.interval segment.openness])], [']']) :=
      many_run_single (List.cons_ne_nil 'i' _) hdecision hstop
    rw [many1, run_bind, hdeclaration, Option.bind_some, run_bind, hmany]
    rfl
  have hclose : (literal [']']).run [']'] = some ((), []) := literal_run [']'] []
  rw [feature, run_rule, run_bind, hopen, Option.bind_some, run_bind, hstatements,
    Option.bind_some, run_bind, hclose]
  rfl

end

end Parser

/-- **A displayed segment is source text for itself.**  Whatever its bounds are, finite or
infinite and in any order, and whichever of its ends are left out: a feature whose one
condition is that a variable lies in the segment, as the segment is displayed, is read as
just this, with the same bounds and the same openness. -/
theorem Segment.parse_displayed (segment : Segment) (hlo : segment.interval.lo ≠ .nan)
    (hhi : segment.interval.hi ≠ .nan) :
    Feature.parse ("[ var x: num if (x in " ++ segment.text ++ ") ]").toList =
      .ok ⟨[⟨"x", .num⟩],
        [.leaf [.membership "x" segment.interval segment.openness]], []⟩ := by
  have hname : NameWritable "x" := by decide
  have htext : ("[ var x: num if (x in " ++ segment.text ++ ") ]").toList = '[' :: ' ' ::
      Parser.declarationText "x" (Parser.decisionText "x" segment [' ', ']']) := by
    simp [Parser.declarationText, Parser.decisionText, Parser.membershipText]
  rw [htext, Feature.parse, Parser.source_run, Solid.skipGap_cons (by decide), List.length_cons,
    Parser.feature_run hname hlo hhi]
  rfl

/-- Reversed bounds, one of them infinite and left out, the other one a fraction below
zero. -/
theorem Segment.parse_displayed_reversed :
    ∃ segment : Segment,
      segment = ⟨⟨true, false⟩, ⟨.infinity, .ofRatio true 1 10⟩⟩ ∧
      segment.interval.lo ≠ .nan ∧ segment.interval.hi ≠ .nan ∧
      segment.text = "(Inf, -0.1]" ∧
      Feature.parse ("[ var x: num if (x in " ++ segment.text ++ ") ]").toList =
        .ok ⟨[⟨"x", .num⟩],
          [.leaf [.membership "x" segment.interval segment.openness]], []⟩ := by
  let segment : Segment := ⟨⟨true, false⟩, ⟨.infinity, .ofRatio true 1 10⟩⟩
  have hlo : segment.interval.lo ≠ .nan := nofun
  have hhi : segment.interval.hi ≠ .nan := nofun
  have htext : segment.text = "(Inf, -0.1]" := by decide +kernel
  exact ⟨segment, rfl, hlo, hhi, htext, segment.parse_displayed hlo hhi⟩

end DecisionTuples
