import DecisionTuples.Proofs.Grammar.Condition
import DecisionTuples.Proofs.Grammar.Spacing

/-!
# Tokens are read back

What is written for a name, a truth value, an operator or a number is read as the same
again, if a space or the end of the text is behind it.  A name that can be written is
read neither as a truth value nor as a number.
-/

namespace DecisionTuples

/-! ## Words and names -/

theorem Ends.avoids {kind : Char → Prop} {rest : List Char} (h : Ends rest)
    (hspace : ¬ kind ' ') : Avoids kind rest := by
  rcases h with rfl | ⟨tail, rfl⟩
  · exact fun _ hc => absurd hc (Option.not_mem_none _)
  · rintro c ⟨⟩
    exact hspace

theorem Ends.atWordEnd {rest : List Char} (h : Ends rest) : AtWordEnd rest := by
  have havoids : Avoids (fun c => isWordChar c = true) rest := h.avoids (by decide)
  exact fun c hc => Bool.eq_false_iff.mpr (havoids c hc)

theorem stripWord?_append (letters : List Char) {rest : List Char} (h : Ends rest) :
    stripWord? letters (letters ++ rest) = some rest :=
  stripWord?_eq_some_iff.mpr ⟨rfl, h.atWordEnd⟩

/-- A word that is complete is all the name characters at the front. -/
theorem takeWhile_word {letters rest : List Char} (hletters : letters.all isWordChar = true)
    (hend : AtWordEnd rest) : (letters ++ rest).takeWhile isWordChar = letters := by
  have happend := List.takeWhile_append_dropWhile (p := isWordChar) (l := letters ++ rest)
  rw [dropWhile_word hletters hend] at happend
  exact List.append_cancel_right happend

theorem IsName.all_isWordChar {spelling : List Char} (h : IsName spelling) :
    spelling.all isWordChar = true := by
  obtain ⟨c, tail, rfl, hc, htail⟩ := h
  rw [List.all_cons, Bool.and_eq_true, List.all_eq_true]
  exact ⟨isWordChar_of_isWordStart hc, htail⟩

/-- A name begins with no word of the language but itself. -/
theorem IsName.stripWord?_eq_none {name letters rest : List Char} (h : IsName name)
    (hletters : letters.all isWordChar = true) (hne : name ≠ letters) (hrest : AtWordEnd rest) :
    stripWord? letters (name ++ rest) = none := by
  rw [Option.eq_none_iff_forall_ne_some]
  intro last hlast
  obtain ⟨htext, hend⟩ := stripWord?_eq_some_iff.mp hlast
  have hname := takeWhile_word h.all_isWordChar hrest
  rw [htext, takeWhile_word hletters hend] at hname
  exact hne hname.symm

theorem IsName.readName? {name : String} (h : IsName name.toList) {rest : List Char}
    (hrest : AtWordEnd rest) : readName? (name.toList ++ rest) = some (name, rest) := by
  have hword := h.all_isWordChar
  obtain ⟨c, tail, hname, hc, -⟩ := h
  have hlist : name = .ofList (c :: tail) := by rw [← hname, String.ofList_toList]
  rw [hname, List.all_cons, Bool.and_eq_true] at hword
  rw [hname, List.cons_append, DecisionTuples.readName?, if_pos hc,
    takeWhile_word hword.2 hrest, dropWhile_word hword.2 hrest, ← hlist]

theorem IsName.opens {name : List Char} (h : IsName name) :
    Opens (fun c => isWordStart c = true) name := by
  obtain ⟨c, tail, rfl, hc, -⟩ := h
  exact ⟨c, rfl, hc⟩

theorem isName_infinityWord : IsName infinityWord :=
  ⟨'I', ['n', 'f'], rfl, by decide, List.all_eq_true.mp (by decide)⟩

/-- A name that can be written is none of the words that are read as something else. -/
theorem NameWritable.toList_ne {name : String} (h : NameWritable name) :
    ∀ word ∈ [truthToken true, truthToken false, infinityWord], name.toList ≠ word := by
  have hwords : ∀ word ∈ [truthToken true, truthToken false, infinityWord],
      String.ofList word ∈ ["true", "false", "Inf"] := by
    decide
  intro word hword heq
  apply h.2
  rw [← String.ofList_toList (s := name), heq]
  exact hwords word hword

/-! ## Numerals -/

namespace Numeral

/-- There are digits before the point, and nothing but digits on both sides of it. -/
def Valid (numeral : Numeral) : Prop :=
  IsDigits numeral.whole ∧ ∀ c ∈ numeral.fraction, c.isDigit = true

variable {numeral : Numeral}

theorem toList_spelling (numeral : Numeral) :
    numeral.spelling.toList = numeral.whole ++
      if numeral.fraction = [] then [] else '.' :: numeral.fraction := by
  unfold spelling
  rw [String.toList_ofList]
  cases numeral.fraction with
  | nil => exact (List.append_nil _).symm
  | cons c tail => rfl

theorem Valid.read? (h : numeral.Valid) {rest : List Char}
    (hrest : Avoids (fun c => c.isDigit = true ∨ c = '.') rest) :
    read? (numeral.spelling.toList ++ rest) = some (numeral, rest) := by
  obtain ⟨whole, fraction⟩ := numeral
  obtain ⟨⟨hne, hwhole⟩, hfraction⟩ := h
  dsimp only at hne hwhole hfraction
  have hdigit : Avoids (fun c => c.isDigit = true) rest := fun c hc h => hrest c hc (.inl h)
  rw [toList_spelling]
  unfold Numeral.read?
  by_cases hnil : fraction = []
  · obtain ⟨htake, hdrop⟩ := digits_before hwhole hdigit
    rw [if_pos hnil, List.append_nil, htake, hdrop, hnil]
    split
    · exact absurd rfl hne
    · exact absurd (Or.inr rfl) (hrest '.' rfl)
    · rfl
  · obtain ⟨htake, hdrop⟩ := digits_before_point hwhole (fraction ++ rest)
    obtain ⟨htake', hdrop'⟩ := digits_before hfraction hdigit
    rw [if_neg hnil, List.append_assoc, List.cons_append, htake, hdrop]
    split
    · exact absurd rfl hne
    · next tail _ heq =>
        cases heq
        rw [htake', hdrop']
        split
        · exact absurd rfl hnil
        · rfl
    · next hpoint => exact absurd rfl (hpoint _)

/-- A numeral begins with a digit. -/
theorem Valid.opens (h : numeral.Valid) :
    Opens (fun c => c.isDigit = true) numeral.spelling.toList := by
  obtain ⟨d, digits, hcons⟩ := List.exists_cons_of_ne_nil h.1.1
  refine ⟨d, ?_, h.1.2 d (hcons ▸ List.mem_cons_self)⟩
  rw [toList_spelling, hcons]
  rfl

end Numeral

/-! ## Numbers -/

namespace Number

theorem valid_exactNumeral (rank : Nat) : (exactNumeral rank).Valid :=
  ⟨⟨exactNumeral_whole_ne_nil rank, isDigit_of_mem_whole rank⟩, isDigit_of_mem_fraction rank⟩

/-- What is written for a magnitude. -/
theorem exactToken_signed (negative : Bool) (rank : Fin (infiniteRank + 1)) :
    (signed negative rank).exactToken = withSign negative (magnitudeToken rank.val) := rfl

theorem ofRank_val (negative : Bool) (rank : Fin (infiniteRank + 1)) :
    ofRank negative rank.val = signed negative rank := by
  have hle : min rank.val infiniteRank = rank.val := by omega
  simp only [ofRank, hle]

/-- A magnitude is written as the word for infinity, or it begins with a digit. -/
theorem magnitudeToken_cases (rank : Nat) :
    magnitudeToken rank = infinityWord ∨
      Opens (fun c => c.isDigit = true) (magnitudeToken rank) := by
  unfold magnitudeToken
  split
  · exact .inl rfl
  · exact .inr (valid_exactNumeral rank).opens

/-- No gap and no sign is in front of a magnitude. -/
theorem opens_magnitudeToken (rank : Nat) :
    Opens (fun c => Solid c ∧ c ≠ '-') (magnitudeToken rank) := by
  rcases magnitudeToken_cases rank with heq | hdigit
  · rw [heq]
    exact ⟨'I', rfl, by decide⟩
  · refine hdigit.mono fun c hc => ⟨solid_of_isDigit hc, ?_⟩
    rintro rfl
    exact absurd hc (by decide)

/-- What is written for a number is the word for infinity, or it begins as no word does. -/
theorem exactToken_cases {a : Number} (h : a ≠ .nan) :
    a.exactToken = infinityWord ∨
      Opens (fun c => Solid c ∧ ¬ isWordStart c = true) a.exactToken := by
  cases a with
  | nan => exact absurd rfl h
  | signed negative rank =>
      cases negative with
      | true => exact .inr ⟨'-', rfl, by decide⟩
      | false =>
          refine (magnitudeToken_cases rank.val).imp id fun hdigit => hdigit.mono fun c hc => ?_
          exact ⟨solid_of_isDigit hc, by simp [isWordStart_eq_false_of_isDigit hc]⟩

theorem opens_exactToken {a : Number} (h : a ≠ .nan) : Opens Solid a.exactToken := by
  rcases exactToken_cases h with heq | hopens
  · rw [heq]
    exact ⟨'I', rfl, by decide⟩
  · exact hopens.mono fun _ => And.left

/-- In front of the rest the magnitude is read as the word for infinity, or as a numeral of
its value. -/
def ReadsMagnitude (magnitude rest : List Char) (rank : Nat) : Prop :=
  (rank = infiniteRank ∧ stripWord? infinityWord (magnitude ++ rest) = some rest) ∨
    stripWord? infinityWord (magnitude ++ rest) = none ∧
      ∃ numeral, Numeral.read? (magnitude ++ rest) = some (numeral, rest) ∧
        ∀ negative, numeral.value negative = .ofRank negative rank

/-- A numeral reads as the magnitude that is its value. -/
theorem readsMagnitude_numeral {numeral : Numeral} (h : numeral.Valid) {rank : Nat}
    (hvalue : ∀ negative, numeral.value negative = .ofRank negative rank) {rest : List Char}
    (hrest : Avoids (fun c => c.isDigit = true ∨ c = '.') rest) :
    ReadsMagnitude numeral.spelling.toList rest rank := by
  obtain ⟨c, tail, hcons, hdigit⟩ := h.opens.exists_cons
  refine .inr ⟨stripWord?_infinityWord ?_, numeral, h.read? hrest, hvalue⟩
  rw [hcons, List.cons_append, List.takeWhile_cons_of_pos hdigit]
  exact List.cons_ne_nil _ _

/-- A number is read under the sign that is put in front of its magnitude. -/
theorem readNumber?_withSign {magnitude rest : List Char} {rank : Nat}
    (hopens : Opens (fun c => Solid c ∧ c ≠ '-') magnitude)
    (h : ReadsMagnitude magnitude rest rank) (negative : Bool) :
    readNumber? (withSign negative magnitude ++ rest) = some (ofRank negative rank, rest) := by
  obtain ⟨c, tail, hcons, hsolid, hsign⟩ := hopens.exists_cons
  cases negative with
  | true =>
      -- A gap may stand behind a sign, but a magnitude does not begin with one.
      have hgap : skipGap (magnitude ++ rest) = magnitude ++ rest := by
        rw [hcons]
        exact hsolid.skipGap_cons _
      rw [withSign, if_pos rfl, List.cons_append, readNumber?, hgap]
      rcases h with ⟨rfl, hword⟩ | ⟨hword, numeral, hread, hvalue⟩
      · rw [hword]
        rfl
      · rw [hword, hread]
        exact congrArg (fun value => some (value, rest)) (hvalue true)
  | false =>
      have hplain : ∀ last, magnitude ++ rest = '-' :: last → False := by
        intro last heq
        rw [hcons] at heq
        exact hsign (List.cons.inj heq).1
      rw [withSign, if_neg Bool.false_ne_true, readNumber?_plain hplain]
      rcases h with ⟨rfl, hword⟩ | ⟨hword, numeral, hread, hvalue⟩
      · rw [hword]
        rfl
      · rw [hword, hread]
        exact congrArg (fun value => some (value, rest)) (hvalue false)

theorem readsMagnitude_magnitudeToken (rank : Fin (infiniteRank + 1)) {rest : List Char}
    (hrest : Ends rest) : ReadsMagnitude (magnitudeToken rank.val) rest rank.val := by
  unfold magnitudeToken
  split
  · next hrank => exact .inl ⟨hrank, stripWord?_append _ hrest⟩
  · next hrank =>
      exact readsMagnitude_numeral (valid_exactNumeral rank.val)
        (Numeral.value_exactNumeral (by omega)) (hrest.avoids (by decide))

theorem readNumber?_exactToken {a : Number} (h : a ≠ .nan) {rest : List Char}
    (hrest : Ends rest) : readNumber? (a.exactToken ++ rest) = some (a, rest) := by
  cases a with
  | nan => exact absurd rfl h
  | signed negative rank =>
      rw [exactToken_signed, ← ofRank_val]
      exact readNumber?_withSign (opens_magnitudeToken rank.val)
        (readsMagnitude_magnitudeToken rank hrest) negative

end Number

/-- A name other than the word for infinity is no number. -/
theorem IsName.readNumber?_eq_none {name rest : List Char} (h : IsName name)
    (hne : name ≠ infinityWord) (hrest : AtWordEnd rest) : readNumber? (name ++ rest) = none := by
  have hword := h.stripWord?_eq_none (by decide) hne hrest
  obtain ⟨c, tail, rfl, hc⟩ := h.opens.exists_cons
  have hplain : ∀ last, c :: tail ++ rest = '-' :: last → False := by
    rintro last heq
    cases heq
    exact absurd hc (by decide)
  have hdigit : ¬ c.isDigit = true := by
    intro hdigit
    rw [isWordStart_eq_false_of_isDigit hdigit] at hc
    cases hc
  rw [readNumber?_plain hplain, hword]
  unfold Numeral.read?
  rw [List.cons_append, List.takeWhile_cons_of_neg hdigit]
  rfl

/-! ## Signs -/

/-- A sign is read where it does not go on. -/
theorem readSymbol?_comparison (comparison : Comparison) {rest : List Char}
    (hrest : comparison.spelling ∈ [['<'], ['>']] → Avoids (· = '=') rest) :
    readSymbol? (Comparison.all.map fun each => (each.spelling, each))
      (comparison.spelling ++ rest) = some (comparison, rest) := by
  have hlonger (h : Avoids (· = '=') rest) : strip? ['='] rest = none := by
    cases rest with
    | nil => rfl
    | cons c tail => rw [strip?, if_neg fun heq => h c rfl heq.symm]
  cases comparison with
  | less =>
      have hlonger := hlonger (hrest (by decide))
      simp [readSymbol?, Comparison.all, Comparison.spelling, strip?, hlonger]
  | greater =>
      have hlonger := hlonger (hrest (by decide))
      simp [readSymbol?, Comparison.all, Comparison.spelling, strip?, hlonger]
  | _ => rfl

theorem readSymbol?_equality (equality : Equality) (rest : List Char) :
    readSymbol? (Equality.all.map fun each => (each.spelling, each))
      (equality.spelling ++ rest) = some (equality, rest) := by
  cases equality
  all_goals rfl

/-- A comparison with a number is a comparison with a truth value, or it is not read as
one. -/
theorem readSymbol?_equality_comparison (comparison : Comparison) :
    (∃ equality : Equality, comparison.spelling = equality.spelling) ∨
      ∀ rest, readSymbol? (Equality.all.map fun each => (each.spelling, each))
        (comparison.spelling ++ rest) = none := by
  cases comparison with
  | equal => exact .inl ⟨.equal, rfl⟩
  | notEqual => exact .inl ⟨.notEqual, rfl⟩
  | _ => exact .inr fun _ => rfl

theorem opens_comparison (comparison : Comparison) : Opens OperatorStart comparison.spelling := by
  cases comparison
  all_goals exact ⟨_, rfl, by simp [OperatorStart]⟩

theorem opens_equality (equality : Equality) : Opens OperatorStart equality.spelling := by
  cases equality
  all_goals exact ⟨_, rfl, by simp [OperatorStart]⟩

/-! ## Parsers of tokens -/

namespace Parser

variable {follow : List Char → Prop}

theorem literal_takes {symbol : Token} (hsolid : Opens Solid symbol) :
    Takes follow (literal symbol) [symbol] () := by
  refine .lexeme hsolid fun rest _ => ?_
  rw [strip?_eq_some_iff.mpr rfl]
  rfl

theorem word_takes {letters : Token} (hsolid : Opens Solid letters) :
    Takes follow (word letters) [letters] () := by
  refine .lexeme hsolid fun rest hrest => ?_
  rw [stripWord?_append letters hrest]
  rfl

theorem variableName_takes {name : String} (h : IsName name.toList) :
    Takes follow variableName [name.toList] name :=
  .rule (.lexeme (h.opens.mono fun _ => solid_of_isWordStart) fun _ hrest =>
    h.readName? hrest.atWordEnd)

theorem number_takes {a : Number} (h : a ≠ .nan) : Takes follow number [a.exactToken] a :=
  .rule (.lexeme (Number.opens_exactToken h) fun _ => Number.readNumber?_exactToken h)

theorem comparison_takes (comparison : Comparison) :
    Takes follow Parser.comparison [comparison.spelling] comparison :=
  .rule (.lexeme ((opens_comparison comparison).mono OperatorStart.solid)
    fun _ hrest => readSymbol?_comparison comparison fun _ => hrest.avoids (by decide))

theorem equality_takes (equality : Equality) :
    Takes follow Parser.equality [equality.spelling] equality :=
  .rule (.lexeme ((opens_equality equality).mono OperatorStart.solid)
    fun rest _ => readSymbol?_equality equality rest)

theorem truthValue_takes (value : Bool) : Takes follow truthValue [truthToken value] value := by
  refine .rule (.lexeme ?_ fun rest hrest => ?_)
  · cases value
    all_goals exact ⟨_, rfl, by decide⟩
  · have hword := stripWord?_append (truthToken value) hrest
    cases value with
    | true =>
        rw [truthToken] at hword ⊢
        rw [hword]
    | false =>
        have htrue : stripWord? ['t', 'r', 'u', 'e'] (truthToken false ++ rest) = none := rfl
        rw [htrue]
        rw [truthToken] at hword ⊢
        rw [hword]
        rfl

theorem lowerBracket_takes (openness : Openness) :
    Takes follow lowerBracket [openness.lowerToken] openness.lo := by
  obtain ⟨lo, hi⟩ := openness
  cases lo
  all_goals exact .rule (.lexeme ⟨_, rfl, by decide⟩ fun _ _ => rfl)

theorem upperBracket_takes (openness : Openness) :
    Takes follow upperBracket [openness.upperToken] openness.hi := by
  obtain ⟨lo, hi⟩ := openness
  cases hi
  all_goals exact .rule (.lexeme ⟨_, rfl, by decide⟩ fun _ _ => rfl)

/-- A name that is no truth value is not read as one. -/
theorem truthValue_refuses {name : Token} (h : IsName name) (htrue : name ≠ truthToken true)
    (hfalse : name ≠ truthToken false) : Refuses follow truthValue [name] := by
  refine .rule (.lexeme (h.opens.mono fun _ => solid_of_isWordStart) fun rest hrest => ?_)
  have hfirst : stripWord? ['t', 'r', 'u', 'e'] (name ++ rest) = none :=
    h.stripWord?_eq_none (by decide) htrue hrest.atWordEnd
  have hsecond : stripWord? ['f', 'a', 'l', 's', 'e'] (name ++ rest) = none :=
    h.stripWord?_eq_none (by decide) hfalse hrest.atWordEnd
  rw [hfirst, hsecond]
  rfl

/-- A number is not read as a truth value. -/
theorem truthValue_refuses_number {a : Number} (h : a ≠ .nan) :
    Refuses follow truthValue [a.exactToken] := by
  rcases Number.exactToken_cases h with heq | hopens
  · rw [heq]
    exact truthValue_refuses isName_infinityWord (by decide) (by decide)
  · exact truthValue_sound.refuses begins_truthValue (.of_opens hopens)

/-- What is written for a number is not read as a name, or all of it is. -/
theorem variableName_number {a : Number} (h : a ≠ .nan) :
    Refuses follow variableName [a.exactToken] ∨
      ∃ name, Takes follow variableName [a.exactToken] name := by
  refine (Number.exactToken_cases h).symm.imp (fun hopens => ?_) fun heq => ⟨"Inf", ?_⟩
  · exact variableName_sound.refuses begins_variableName (.of_opens hopens)
  · have hname : IsName "Inf".toList := isName_infinityWord
    rw [heq]
    exact variableName_takes hname

/-- A name other than the word for infinity is not read as a number. -/
theorem number_refuses {name : Token} (h : IsName name) (hne : name ≠ infinityWord) :
    Refuses follow number [name] := by
  refine .rule (.lexeme (h.opens.mono fun _ => solid_of_isWordStart) fun rest hrest => ?_)
  exact h.readNumber?_eq_none hne hrest.atWordEnd

end Parser
end DecisionTuples
