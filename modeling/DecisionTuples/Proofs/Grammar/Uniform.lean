import DecisionTuples.Grammar.Feature
import DecisionTuples.Proofs.Grammar.Lexical

/-!
# What is read of a token does not depend on the text behind it

`Uniform e e' read` says of a function that reads tokens: wherever a token stands that may
stand where `e` is expected, the function refuses it whatever is behind it, or it always
reads the whole token as the same value, and then `e'` is expected next.  No function reads
a part of a token, or more than a token, but for one case: of a minus sign before the word
for infinity both are read together (`readNumber?_minus`).
-/

namespace DecisionTuples

section

variable {α : Type} {e e' : Expect} {read : List Char → Option (α × List Char)}

/-- A token of these letters is refused, or read as the same value, wherever it stands. -/
def ReadsAlike (e e' : Expect) (read : List Char → Option (α × List Char))
    (letters : List Char) : Prop :=
  (∀ behind, Stands e letters behind → read (letters ++ behind) = none) ∨
    (Expect.after letters = e' ∧
      ∃ a, ∀ behind, Stands e letters behind → read (letters ++ behind) = some (a, behind))

/-- Every token is refused, or read as the same value, wherever it stands. -/
def Uniform (e e' : Expect) (read : List Char → Option (α × List Char)) : Prop :=
  ∀ letters, ReadsAlike e e' read letters

theorem Reads.eq_none {form : Form} {kind : Char → Prop} (h : Reads read form)
    (hbegins : form.Begins kind) {text : List Char} (htext : Avoids kind text) :
    read text = none := by
  rw [Option.eq_none_iff_forall_ne_some]
  rintro ⟨a, rest⟩ hread
  obtain ⟨c, tail, rfl, hc, -⟩ := hbegins text rest ((h text rest).mp ⟨a, hread⟩)
  exact htext c rfl hc

/-- Only tokens that begin as the form does have to be considered. -/
theorem Reads.readsAlike {form : Form} {kind : Char → Prop} (h : Reads read form)
    (hbegins : form.Begins kind) {letters : List Char}
    (hopens : Opens kind letters → ReadsAlike e e' read letters) :
    ReadsAlike e e' read letters := by
  by_cases hkind : Opens kind letters
  · exact hopens hkind
  · refine .inl fun behind hstands => h.eq_none hbegins ?_
    rintro c hc hkindc
    obtain ⟨d, tail, rfl⟩ := List.exists_cons_of_ne_nil hstands.ne_nil
    exact hkind ⟨c, hc, hkindc⟩

end

/-! ## How tokens begin -/

section

variable {letters behind : List Char}

theorem Opens.disjoint {kind kind' : Char → Prop} (h : Opens kind letters)
    (h' : Opens kind' letters) (hkind : ∀ c, kind c → ¬ kind' c) : False := by
  obtain ⟨c, hc, hkindc⟩ := h'
  exact h.avoids hkind c hc hkindc

theorem OperatorStart.not_isWordStart (c : Char) (h : OperatorStart c) :
    ¬ isWordStart c = true := by
  simp only [OperatorStart, List.mem_cons, List.not_mem_nil, or_false] at h
  rcases h with rfl | rfl | rfl | rfl
  all_goals decide

theorem OperatorStart.not_numberStart (c : Char) (h : OperatorStart c) :
    ¬ NumberStart c := by
  simp only [OperatorStart, List.mem_cons, List.not_mem_nil, or_false] at h
  rcases h with rfl | rfl | rfl | rfl
  all_goals decide

theorem not_numberStart_of_isWordStart (c : Char) (h : isWordStart c = true) :
    ¬ NumberStart c := by
  rintro (hdigit | rfl)
  · rw [isWordStart_eq_false_of_isDigit hdigit] at h
    cases h
  · exact absurd h (by decide)

/-- A token that begins as a name does is a name. -/
theorem Stands.isName (h : Stands .any letters behind)
    (hopens : Opens (fun c => isWordStart c = true) letters) :
    IsName letters ∧ AtWordEnd behind := by
  cases h with
  | mark h _ =>
      have hmarks : ∀ mark ∈ marks, ¬ Opens (fun c => isWordStart c = true) mark := by
        decide
      exact absurd hopens (hmarks letters h)
  | operator h _ => exact (h.opens.disjoint hopens OperatorStart.not_isWordStart).elim
  | name h hend => exact ⟨h, hend⟩
  | number h _ => exact (hopens.disjoint h.opens not_numberStart_of_isWordStart).elim

/-- A token that begins as a sign of comparison does is one. -/
theorem Stands.isComparison (h : Stands .any letters behind)
    (hopens : Opens OperatorStart letters) :
    IsComparison letters ∧ (letters ∈ [['<'], ['>']] → Avoids (· = '=') behind) := by
  cases h with
  | mark h _ =>
      have hmarks : ∀ mark ∈ marks, ¬ Opens OperatorStart mark := by decide
      exact absurd hopens (hmarks letters h)
  | operator h hend => exact ⟨h, hend⟩
  | name h _ => exact (hopens.disjoint h.opens OperatorStart.not_isWordStart).elim
  | number h _ => exact (hopens.disjoint h.opens OperatorStart.not_numberStart).elim

/-- A token that begins as a number does is one, or a sign alone. -/
theorem Stands.isSigned (h : Stands .any letters behind)
    (hopens : Opens NumberStart letters) (hne : letters ≠ ['-']) :
    IsSigned letters ∧ Avoids (fun c => c.isDigit = true ∨ c = '.') behind := by
  cases h with
  | mark h _ =>
      have hmarks : ∀ mark ∈ marks, mark ≠ ['-'] → ¬ Opens NumberStart mark := by
        decide
      exact absurd hopens (hmarks letters h hne)
  | operator h _ => exact (h.opens.disjoint hopens OperatorStart.not_numberStart).elim
  | name h _ => exact (h.opens.disjoint hopens not_numberStart_of_isWordStart).elim
  | number h hend => exact ⟨h, hend⟩

/-- A token that begins as a mark does is the mark. -/
theorem Stands.eq_mark {c : Char} {tail : List Char} (h : Stands .any letters behind)
    (hmark : c :: tail ∈ marks) (hne : c ≠ '-') (hopens : Opens (· = c) letters) :
    letters = c :: tail := by
  have hfront : ∀ mark ∈ marks, mark ≠ ['-'] →
      Avoids (fun d => OperatorStart d ∨ isWordStart d = true ∨ NumberStart d) mark := by
    decide
  have hother : ¬ (OperatorStart c ∨ isWordStart c = true ∨ NumberStart c) :=
    hfront _ hmark (fun heq => hne (List.cons.inj heq).1) c rfl
  rw [not_or, not_or] at hother
  obtain ⟨hoperator, hname, hnumber⟩ := hother
  cases h with
  | mark h _ =>
      have hmarks : ∀ mark ∈ marks, ∀ other ∈ marks, mark.head? = other.head? → mark = other := by
        decide
      obtain ⟨d, hd, rfl⟩ := hopens
      exact hmarks letters h _ hmark hd
  | operator h _ => exact (hopens.disjoint h.opens (forall_eq.mpr hoperator)).elim
  | name h _ => exact (hopens.disjoint h.opens (forall_eq.mpr hname)).elim
  | number h _ => exact (hopens.disjoint h.opens (forall_eq.mpr hnumber)).elim

end

/-! ## Marks and types -/

section

variable {α : Type} {e : Expect}

theorem uniform_symbol {c : Char} {tail : List Char}
    (h : ∀ letters behind, Stands e letters behind → Opens (· = c) letters →
      letters = c :: tail) :
    Uniform e (.after (c :: tail)) fun text =>
      (strip? (c :: tail) text).map fun rest => ((), rest) := by
  refine fun letters => (symbol_reads _).readsAlike (.symbol c tail) fun hopens => ?_
  by_cases heq : letters = c :: tail
  · refine .inr ⟨by rw [heq], (), fun behind _ => ?_⟩
    simp only [heq, strip?_eq_some_iff.mpr rfl, Option.map_some]
  · exact .inl fun behind hstands => absurd (h letters behind hstands hopens) heq

theorem uniform_mark {c : Char} {tail : List Char} (hmark : c :: tail ∈ marks) (hne : c ≠ '-') :
    Uniform .any (.after (c :: tail)) fun text =>
      (strip? (c :: tail) text).map fun rest => ((), rest) :=
  uniform_symbol fun _ _ hstands hopens => hstands.eq_mark hmark hne hopens

theorem typeWords_head :
    ∀ word ∈ typeWords, ∀ other ∈ typeWords, word.head? = other.head? → word = other := by
  decide

theorem uniform_type {c : Char} {tail : List Char} (htype : c :: tail ∈ typeWords) :
    Uniform .type (.after (c :: tail)) fun text =>
      (strip? (c :: tail) text).map fun rest => ((), rest) := by
  refine uniform_symbol ?_
  rintro letters behind ⟨⟩ ⟨d, hd, rfl⟩
  next h => exact typeWords_head letters h _ htype hd

/-- A bracket of a pair. -/
theorem uniform_brackets {a b : Char} (ha : [a] ∈ marks) (hb : [b] ∈ marks)
    (hsign : a ≠ '-' ∧ b ≠ '-') (hafter : Expect.after [a] = .any ∧ Expect.after [b] = .any)
    (hne : a ≠ b) (x y : α) : Uniform .any .any (readSymbol? [([a], x), ([b], y)]) := by
  have hbegins : (Form.choice (.symbol [a]) (.symbol [b])).Begins fun c => c = a ∨ c = b :=
    ((Form.Begins.symbol a []).mono fun _ => .inl).choice
      ((Form.Begins.symbol b []).mono fun _ => .inr)
  refine fun letters => (bracket_reads hne x y).readsAlike hbegins fun hopens => ?_
  by_cases hfirst : letters = [a]
  · refine .inr ⟨hfirst ▸ hafter.1, x, fun behind _ => ?_⟩
    rw [hfirst, readSymbol?_cons, strip?_eq_some_iff.mpr rfl]
    rfl
  by_cases hsecond : letters = [b]
  · refine .inr ⟨hsecond ▸ hafter.2, y, fun behind _ => ?_⟩
    have hskip : strip? [a] ([b] ++ behind) = none := by
      rw [List.singleton_append, strip?, if_neg hne]
    rw [hsecond, readSymbol?_cons, hskip, readSymbol?_cons, strip?_eq_some_iff.mpr rfl]
    rfl
  · refine .inl fun behind hstands => ?_
    obtain ⟨c, hc, rfl | rfl⟩ := hopens
    · exact absurd (hstands.eq_mark ha hsign.1 ⟨c, hc, rfl⟩) hfirst
    · exact absurd (hstands.eq_mark hb hsign.2 ⟨c, hc, rfl⟩) hsecond

end

/-! ## Words and names -/

/-- Only names have to be considered where the form begins as a name does. -/
theorem Reads.uniform_names {α : Type} {read : List Char → Option (α × List Char)} {form : Form}
    (h : Reads read form) (hbegins : form.Begins fun c => isWordStart c = true)
    (hread : ∀ letters, IsName letters →
      (∀ behind, AtWordEnd behind → read (letters ++ behind) = none) ∨
        ∃ a, ∀ behind, AtWordEnd behind → read (letters ++ behind) = some (a, behind)) :
    Uniform .any .any read := by
  refine fun letters => h.readsAlike hbegins fun hopens => ?_
  by_cases hname : IsName letters
  · rcases hread letters hname with hnone | ⟨a, ha⟩
    · exact .inl fun behind hstands => hnone behind (hstands.isName hopens).2
    · exact .inr ⟨hname.after, a, fun behind hstands => ha behind (hstands.isName hopens).2⟩
  · exact .inl fun behind hstands => absurd (hstands.isName hopens).1 hname

theorem uniform_word {c : Char} {tail : List Char} (hc : isWordStart c = true)
    (htail : tail.all isWordChar = true) :
    Uniform .any .any fun text => (stripWord? (c :: tail) text).map fun rest => ((), rest) := by
  have hbegins : (Form.word (c :: tail)).Begins fun c => isWordStart c = true :=
    (Form.Begins.word c tail).mono (forall_eq.mpr hc)
  refine (word_reads _).uniform_names hbegins fun letters hname => ?_
  by_cases heq : letters = c :: tail
  · refine .inr ⟨(), fun behind hend => ?_⟩
    rw [heq, stripWord?_eq_some_iff.mpr ⟨rfl, hend⟩]
    rfl
  · refine .inl fun behind hend => ?_
    rw [hname.stripWord?_eq_none (isName_of_word hc htail).all_isWordChar heq hend]
    rfl

theorem uniform_truthValue : Uniform .any .any fun text =>
    match stripWord? ['t', 'r', 'u', 'e'] text with
    | some rest => some (true, rest)
    | none => (stripWord? ['f', 'a', 'l', 's', 'e'] text).map fun rest => (false, rest) := by
  refine truthValue_reads.uniform_names begins_truthValue.of_rule fun letters hname => ?_
  by_cases htrue : letters = ['t', 'r', 'u', 'e']
  · refine .inr ⟨true, fun behind hend => ?_⟩
    rw [htrue, stripWord?_eq_some_iff.mpr ⟨rfl, hend⟩]
  by_cases hfalse : letters = ['f', 'a', 'l', 's', 'e']
  · refine .inr ⟨false, fun behind hend => ?_⟩
    rw [hname.stripWord?_eq_none (by decide) htrue hend, hfalse,
      stripWord?_eq_some_iff.mpr ⟨rfl, hend⟩]
    rfl
  · refine .inl fun behind hend => ?_
    rw [hname.stripWord?_eq_none (by decide) htrue hend,
      hname.stripWord?_eq_none (by decide) hfalse hend]
    rfl

theorem uniform_readName? : Uniform .any .any readName? := by
  refine variableName_reads.uniform_names begins_variableName.of_rule fun letters hname => ?_
  refine .inr ⟨.ofList letters, fun behind hend => ?_⟩
  have hlist : IsName (String.ofList letters).toList := by rwa [String.toList_ofList]
  have hread := hlist.readName? hend
  rwa [String.toList_ofList] at hread

/-! ## Signs of comparison -/

theorem isComparison_iff {letters : List Char} :
    IsComparison letters ↔ ∃ comparison : Comparison, comparison.spelling = letters := by
  have hlist : IsComparison letters ↔ letters ∈ Comparison.all.map Comparison.spelling := Iff.rfl
  rw [hlist, List.mem_map]
  constructor
  · rintro ⟨comparison, -, heq⟩
    exact ⟨comparison, heq⟩
  · rintro ⟨comparison, heq⟩
    refine ⟨comparison, ?_, heq⟩
    cases comparison
    all_goals decide

theorem uniform_comparison : Uniform .any .any
    (readSymbol? (Comparison.all.map fun each => (each.spelling, each))) := by
  refine fun letters => comparison_reads.readsAlike begins_comparison.of_rule fun hopens => ?_
  by_cases hletters : IsComparison letters
  · obtain ⟨comparison, rfl⟩ := isComparison_iff.mp hletters
    exact .inr ⟨hletters.after, comparison, fun behind hstands =>
      readSymbol?_comparison comparison (hstands.isComparison hopens).2⟩
  · exact .inl fun behind hstands => absurd (hstands.isComparison hopens).1 hletters

theorem uniform_equality : Uniform .any .any
    (readSymbol? (Equality.all.map fun each => (each.spelling, each))) := by
  refine fun letters => equality_reads.readsAlike begins_equality.of_rule fun hopens => ?_
  -- The token may be any sign of comparison; only two of them compare truth values.
  by_cases hletters : IsComparison letters
  · obtain ⟨comparison, rfl⟩ := isComparison_iff.mp hletters
    rcases readSymbol?_equality_comparison comparison with ⟨equality, heq⟩ | hnone
    · exact .inr ⟨hletters.after, equality,
        fun behind _ => heq ▸ readSymbol?_equality equality behind⟩
    · exact .inl fun behind _ => hnone behind
  · exact .inl fun behind hstands => absurd (hstands.isComparison hopens).1 hletters

/-! ## Numbers -/

/-- A numeral is the spelling of what is read from it. -/
theorem IsNumeral.exists_numeral {letters : List Char} (h : IsNumeral letters) :
    ∃ numeral : Numeral, numeral.Valid ∧ numeral.spelling.toList = letters := by
  rcases h with hdigits | ⟨whole, fraction, rfl, hwhole, hfraction⟩
  · refine ⟨⟨letters, []⟩, ⟨hdigits, nofun⟩, ?_⟩
    rw [Numeral.toList_spelling, if_pos rfl, List.append_nil]
  · refine ⟨⟨whole, fraction⟩, ⟨hwhole, hfraction.2⟩, ?_⟩
    rw [Numeral.toList_spelling, if_neg hfraction.1]

theorem uniform_precision : Uniform .any .any Numeral.read? := by
  refine fun letters => precision_reads.readsAlike begins_numeral fun hopens => ?_
  have hsigned := hopens.mono fun c hc => (Or.inl hc : NumberStart c)
  have hne : letters ≠ ['-'] := by
    rintro rfl
    exact absurd hopens (by decide)
  by_cases hnumeral : IsNumeral letters
  · have hafter := IsSigned.after (.inl hnumeral)
    obtain ⟨numeral, hvalid, rfl⟩ := hnumeral.exists_numeral
    exact .inr ⟨hafter, numeral, fun behind hstands =>
      hvalid.read? (hstands.isSigned hsigned hne).2⟩
  · refine .inl fun behind hstands => absurd ?_ hnumeral
    rcases (hstands.isSigned hsigned hne).1 with hnumeral | ⟨numeral, rfl, -⟩
    · exact hnumeral
    · obtain ⟨c, ⟨⟩, hdigit⟩ := hopens
      exact absurd hdigit (by decide)

/-- A number that is one token, wherever it stands. -/
theorem readNumber?_signed {letters : List Char} (h : IsSigned letters) :
    ∃ constant, ∀ behind, Avoids (fun c => c.isDigit = true ∨ c = '.') behind →
      readNumber? (letters ++ behind) = some (constant, behind) := by
  rcases h with hnumeral | ⟨digits, rfl, hnumeral⟩
  · obtain ⟨c, tail, hcons, hdigit⟩ :=
      exists_digit (hnumeral.takeWhile_ne_nil (List.prefix_refl letters))
    obtain ⟨numeral, hvalid, hspelling⟩ := hnumeral.exists_numeral
    refine ⟨numeral.value false, fun behind hend => ?_⟩
    have hplain : ∀ last, letters ++ behind = '-' :: last → False := by
      intro last heq
      rw [hcons] at heq
      cases heq
      exact absurd hdigit (by decide)
    have hword := stripWord?_infinityWord
      (hnumeral.takeWhile_ne_nil (List.prefix_append letters behind))
    rw [readNumber?_plain hplain, hword, ← hspelling, hvalid.read? hend]
    rfl
  · obtain ⟨c, tail, hcons, hdigit⟩ :=
      exists_digit (hnumeral.takeWhile_ne_nil (List.prefix_refl digits))
    obtain ⟨numeral, hvalid, hspelling⟩ := hnumeral.exists_numeral
    refine ⟨numeral.value true, fun behind hend => ?_⟩
    have hgap : skipGap (digits ++ behind) = digits ++ behind := by
      rw [hcons]
      exact (solid_of_isDigit hdigit).skipGap_cons _
    have hword := stripWord?_infinityWord
      (hnumeral.takeWhile_ne_nil (List.prefix_append digits behind))
    rw [List.cons_append, readNumber?, hgap, hword, ← hspelling, hvalid.read? hend]
    rfl

/-- A minus sign is read together with the word for infinity behind it. -/
theorem readNumber?_minus {behind rest : List Char} (hword : skipGap behind = infinityWord ++ rest)
    (hend : AtWordEnd rest) : readNumber? ('-' :: behind) = some (.negativeInfinity, rest) := by
  rw [readNumber?, stripWord?_eq_some_iff.mpr ⟨hword, hend⟩]

/-- A token other than a minus sign is refused as a number, or read as the same one,
wherever it stands. -/
theorem readsAlike_readNumber? {letters : List Char} (hne : letters ≠ ['-']) :
    ReadsAlike .any .any readNumber? letters := by
  refine number_reads.readsAlike begins_number.of_rule ?_
  rintro ⟨c, hc, hnumber | hword⟩
  · have hopens : Opens NumberStart letters := ⟨c, hc, hnumber⟩
    by_cases hsigned : IsSigned letters
    · obtain ⟨constant, hread⟩ := readNumber?_signed hsigned
      exact .inr ⟨hsigned.after, constant, fun behind hstands =>
        hread behind (hstands.isSigned hopens hne).2⟩
    · exact .inl fun behind hstands => absurd (hstands.isSigned hopens hne).1 hsigned
  · have hopens : Opens (fun c => isWordStart c = true) letters := ⟨c, hc, hword⟩
    by_cases hinfinity : letters = infinityWord
    · refine .inr ⟨by rw [hinfinity]; rfl, .infinity, fun behind hstands => ?_⟩
      have hplain : ∀ last, infinityWord ++ behind = '-' :: last → False := by
        rintro last ⟨⟩
      rw [hinfinity, readNumber?_plain hplain,
        stripWord?_eq_some_iff.mpr ⟨rfl, (hstands.isName hopens).2⟩]
    · refine .inl fun behind hstands => ?_
      obtain ⟨hname, hend⟩ := hstands.isName hopens
      exact hname.readNumber?_eq_none hinfinity hend

/-! ## There is one list of tokens -/

/-- What stands before a text as a token is determined by the whole, but for a minus sign,
which may also begin a number. -/
theorem Stands.unique {e : Expect} {letters letters' behind behind' : List Char}
    (h : Stands e letters behind) (h' : Stands e letters' behind')
    (htext : letters ++ behind = letters' ++ behind')
    (hminus : letters = ['-'] ↔ letters' = ['-']) : letters = letters' := by
  have hhead : letters.head? = letters'.head? := by
    obtain ⟨c, tail, rfl⟩ := List.exists_cons_of_ne_nil h.ne_nil
    obtain ⟨c', tail', rfl⟩ := List.exists_cons_of_ne_nil h'.ne_nil
    exact congrArg some (List.cons.inj htext).1
  have hopens {kind : Char → Prop} (hkind : Opens kind letters) : Opens kind letters' := by
    unfold Opens at hkind ⊢
    rwa [← hhead]
  have hbehind (heq : behind = behind') : letters = letters' :=
    List.append_cancel_right (heq ▸ htext)
  cases h with
  | mark h _ =>
      by_cases hsign : letters = ['-']
      · rw [hsign, hminus.mp hsign]
      · have hmarks : ∀ mark ∈ marks, mark ≠ ['-'] → Opens (· ≠ '-') mark := by
          decide
        obtain ⟨c, tail, rfl, hc⟩ := (hmarks letters h hsign).exists_cons
        exact (h'.eq_mark h hc (hopens ⟨c, rfl, rfl⟩)).symm
  | operator h hend =>
      obtain ⟨h', hend'⟩ := h'.isComparison (hopens h.opens)
      obtain ⟨comparison, rfl⟩ := isComparison_iff.mp h
      obtain ⟨comparison', rfl⟩ := isComparison_iff.mp h'
      have hread := readSymbol?_comparison comparison hend
      rw [htext, readSymbol?_comparison comparison' hend'] at hread
      cases hread
      rfl
  | name h hend =>
      obtain ⟨h', hend'⟩ := h'.isName (hopens h.opens)
      have hname := dropWhile_word h.all_isWordChar hend
      rw [htext, dropWhile_word h'.all_isWordChar hend'] at hname
      exact hbehind hname.symm
  | number h hend =>
      obtain ⟨h', hend'⟩ := h'.isSigned (hopens h.opens) fun heq => h.ne_minus (hminus.mpr heq)
      obtain ⟨constant, hread⟩ := readNumber?_signed h
      obtain ⟨constant', hread'⟩ := readNumber?_signed h'
      have heq := hread behind hend
      rw [htext, hread' behind' hend'] at heq
      cases heq
      exact hbehind rfl
  | type h _ =>
      cases h' with
      | type h' _ =>
          exact typeWords_head _ h _ h' hhead
  | infinity _ =>
      cases h'
      rfl

theorem Stands.eq_any {e : Expect} {behind : List Char} (h : Stands e ['-'] behind) :
    e = .any := by
  cases h with
  | type h _ => exact absurd h (by decide)
  | _ => rfl

theorem Laid.opens_infinity {tokens : List Placed} {text : List Char}
    (h : Laid .infinity tokens text) : Opens (· = 'I') text := by
  cases h with
  | @cons _ token _ hstands _ =>
      obtain ⟨letters, behind⟩ := token
      cases hstands
      exact ⟨'I', rfl, rfl⟩

/-- Before the word for infinity a minus sign does not begin a number with digits. -/
theorem Laid.eq_minus {tokens : List Placed} {behind letters behind' : List Char}
    (h : Laid .infinity tokens (skipGap behind)) (hstands : Stands .any letters behind')
    (htext : '-' :: behind = letters ++ behind') : letters = ['-'] := by
  by_contra hne
  obtain ⟨c, tail, rfl⟩ := List.exists_cons_of_ne_nil hstands.ne_nil
  obtain ⟨rfl, rfl⟩ := List.cons.inj htext
  obtain ⟨hsigned, -⟩ := hstands.isSigned ⟨'-', rfl, .inr rfl⟩ hne
  have htail : IsNumeral tail := by
    rcases hsigned with hnumeral | ⟨numeral, heq, hnumeral⟩
    · exact absurd rfl (hnumeral.takeWhile_ne_nil (List.prefix_refl _))
    · cases heq
      exact hnumeral
  obtain ⟨d, digits, rfl, hdigit⟩ :=
    exists_digit (htail.takeWhile_ne_nil (List.prefix_refl tail))
  rw [List.append_eq, List.cons_append, (solid_of_isDigit hdigit).skipGap_cons] at h
  obtain ⟨_, ⟨⟩, rfl⟩ := h.opens_infinity
  exact absurd hdigit (by decide)

/-- A text is laid out of one list of tokens. -/
theorem Laid.unique {e : Expect} {tokens tokens' : List Placed} {text : List Char}
    (h : Laid e tokens text) (h' : Laid e tokens' text) : tokens = tokens' := by
  induction h generalizing tokens' with
  | nil =>
      rcases h'.head_cases with ⟨rfl, -⟩ | ⟨c, hc, -⟩
      · rfl
      · cases hc
  | @cons e token tokens hstands hrest ih =>
      obtain ⟨letters, behind⟩ := token
      generalize htext : letters ++ behind = text at h'
      cases h' with
      | nil => exact absurd (List.append_eq_nil_iff.mp htext).1 hstands.ne_nil
      | @cons _ token' tokens' hstands' hrest' =>
          obtain ⟨letters', behind'⟩ := token'
          dsimp only at hstands hstands' hrest hrest' htext ih
          -- What follows a minus sign tells it from the sign of a number.
          have hminus : letters = ['-'] ↔ letters' = ['-'] := by
            constructor
            · rintro rfl
              obtain rfl := hstands.eq_any
              exact hrest.eq_minus hstands' htext
            · rintro rfl
              obtain rfl := hstands'.eq_any
              exact hrest'.eq_minus hstands htext.symm
          obtain rfl := hstands.unique hstands' htext hminus
          obtain rfl := List.append_cancel_left htext
          rw [ih hrest']

/-- The tokens of a source do not depend on its derivation. -/
theorem TokensOf.unique {source : List Char} {tokens tokens' : List Placed}
    (h : TokensOf source tokens) (h' : TokensOf source tokens') : tokens = tokens' :=
  h.laid.unique h'.laid

end DecisionTuples
