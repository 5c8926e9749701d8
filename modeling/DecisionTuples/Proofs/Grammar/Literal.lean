import DecisionTuples.Proofs.Grammar.Depiction
import DecisionTuples.Proofs.Grammar.Uniform

/-!
# What is built from a token is what was read

A token is read off the front of a text, and built from its letters once it is known where it
ends.  Both give the same value.  The letters of a number may be those of a whole gap
between a sign and the word for infinity; such letters end with the word, and no numeral
does.
-/

namespace DecisionTuples

variable {letters rest : List Char} {inner : List Node}

/-! ## Names and words -/

theorem text_of_readName? {text : List Char} {name : String}
    (h : readName? text = some (name, rest)) : text = name.toList ++ rest := by
  cases text with
  | nil => cases h
  | cons c tail =>
      rw [readName?] at h
      split at h
      · cases h
        rw [String.toList_ofList, List.cons_append, List.takeWhile_append_dropWhile]
      · cases h

theorem showsName {name : String} (h : readName? (letters ++ rest) = some (name, rest)) :
    ShowsName name ⟨.variableName, letters, inner⟩ := by
  obtain rfl : letters = name.toList := List.append_cancel_right (text_of_readName? h)
  exact ⟨rfl, congrArg Except.ok String.ofList_toList⟩

theorem showsTruth {value : Bool}
    (h : (match stripWord? ['t', 'r', 'u', 'e'] (letters ++ rest) with
      | some rest => some (true, rest)
      | none => (stripWord? ['f', 'a', 'l', 's', 'e'] (letters ++ rest)).map fun rest =>
        (false, rest)) = some (value, rest)) :
    ShowsTruth value ⟨.truthValue, letters, inner⟩ := by
  split at h
  · next htrue =>
      cases h
      obtain rfl := List.append_cancel_right (stripWord?_eq_some_iff.mp htrue).1
      exact ⟨rfl, rfl⟩
  · obtain ⟨last, hfalse, heq⟩ := Option.map_eq_some_iff.mp h
    cases heq
    obtain rfl := List.append_cancel_right (stripWord?_eq_some_iff.mp hfalse).1
    exact ⟨rfl, rfl⟩

/-! ## Signs -/

section

variable {α : Type} {symbols : List (List Char × α)} {value : α}

theorem mem_of_readSymbol? (h : readSymbol? symbols (letters ++ rest) = some (value, rest)) :
    (letters, value) ∈ symbols := by
  obtain ⟨⟨spelling, found⟩, hmem, hfound⟩ := List.exists_of_findSome?_eq_some h
  obtain ⟨last, hstrip, heq⟩ := Option.map_eq_some_iff.mp hfound
  cases heq
  rwa [List.append_cancel_right (strip?_eq_some_iff.mp hstrip)]

end

theorem showsEquality {equality : Equality}
    (h : readSymbol? (Equality.all.map fun each => (each.spelling, each)) (letters ++ rest) =
      some (equality, rest)) : ShowsEquality equality ⟨.equality, letters, inner⟩ := by
  obtain ⟨_, -, heq⟩ := List.mem_map.mp (mem_of_readSymbol? h)
  cases heq
  have hsymbol := Equality.ofSymbol_symbol equality
  unfold Equality.symbol at hsymbol
  refine ⟨rfl, ?_⟩
  simp only [Node.buildEquality, Node.text, hsymbol]
  rfl

theorem showsComparison {comparison : Comparison}
    (h : readSymbol? (Comparison.all.map fun each => (each.spelling, each)) (letters ++ rest) =
      some (comparison, rest)) : ShowsComparison comparison ⟨.comparison, letters, inner⟩ := by
  obtain ⟨_, -, heq⟩ := List.mem_map.mp (mem_of_readSymbol? h)
  cases heq
  have hsymbol := Comparison.ofSymbol_symbol comparison
  unfold Comparison.symbol at hsymbol
  refine ⟨rfl, ?_⟩
  simp only [Node.buildComparison, Node.text, hsymbol]
  rfl

theorem showsLower {loOpen : Bool}
    (h : readSymbol? [(['('], true), (['['], false)] (letters ++ rest) = some (loOpen, rest)) :
    ShowsLower loOpen ⟨.lowerBracket, letters, inner⟩ := by
  rcases List.mem_pair.mp (mem_of_readSymbol? h) with heq | heq
  all_goals
    cases heq
    exact ⟨rfl, rfl⟩

theorem showsUpper {hiOpen : Bool}
    (h : readSymbol? [([')'], true), ([']'], false)] (letters ++ rest) = some (hiOpen, rest)) :
    ShowsUpper hiOpen ⟨.upperBracket, letters, inner⟩ := by
  rcases List.mem_pair.mp (mem_of_readSymbol? h) with heq | heq
  all_goals
    cases heq
    exact ⟨rfl, rfl⟩

/-! ## Numerals -/

theorem toLower_of_isDigit {c : Char} (h : c.isDigit = true) : c.toLower = c := by
  refine dif_neg fun hupper => ?_
  have hletter : 65 ≤ c.toNat := UInt32.le_iff_toNat_le.mp hupper.1
  have hdigit : c.toNat ≤ 57 := (Char.isDigit_iff_toNat.mp h).2
  omega

namespace Numeral

theorem text_of_read? {text : List Char} {numeral : Numeral}
    (h : Numeral.read? text = some (numeral, rest)) :
    numeral.Valid ∧ text = numeral.spelling.toList ++ rest := by
  have htext : text = text.takeWhile Char.isDigit ++ text.dropWhile Char.isDigit :=
    List.takeWhile_append_dropWhile.symm
  unfold Numeral.read? at h
  split at h
  · cases h
  · next _ _ tail hdrop hsome =>
      rw [hdrop] at htext
      split at h
      · cases h
        refine ⟨⟨isDigits_takeWhile hsome, nofun⟩, ?_⟩
        rwa [toList_spelling, if_pos rfl, List.append_nil]
      · next hfraction =>
          cases h
          refine ⟨⟨isDigits_takeWhile hsome, fun _ hc => List.mem_takeWhile_imp hc⟩, ?_⟩
          rw [toList_spelling, if_neg hfraction, List.append_assoc, List.cons_append,
            List.takeWhile_append_dropWhile]
          exact htext
  · next hsome hpoint =>
      cases h
      refine ⟨⟨isDigits_takeWhile hsome, nofun⟩, ?_⟩
      rwa [toList_spelling, if_pos rfl, List.append_nil]

variable {numeral : Numeral}

/-- The digits of a numeral denote its value. -/
theorem Valid.ofDigits? (h : numeral.Valid) (negative : Bool) :
    Number.ofDigits? negative numeral.spelling.toList = some (numeral.value negative) := by
  obtain ⟨whole, fraction⟩ := numeral
  obtain ⟨⟨hne, hwhole⟩, hfraction⟩ := h
  dsimp only at hne hwhole hfraction
  have hdigits : whole ++ fraction ≠ [] := fun hnil => hne (List.append_eq_nil_iff.mp hnil).1
  have hvalue : ((Decimal.ofDigits whole fraction).shift 0).toNumber negative =
      value ⟨whole, fraction⟩ negative := by
    rw [Decimal.shift, Int.add_zero]
    rfl
  -- Whether there is a point or not, the digits on both sides of it are found.
  have hfound : ∀ text : List Char, text.takeWhile Char.isDigit = whole →
      Number.splitFraction (text.dropWhile Char.isDigit) = (fraction, []) →
        Number.ofDigits? negative text = some (value ⟨whole, fraction⟩ negative) := by
    intro text htake hsplit
    unfold Number.ofDigits?
    rw [htake, hsplit]
    exact (if_neg hdigits).trans (congrArg some hvalue)
  have hend : ∀ c ∈ ([] : List Char).head?, ¬ c.isDigit = true := nofun
  rw [toList_spelling]
  by_cases hnil : fraction = []
  · obtain ⟨htake, hdrop⟩ := digits_before hwhole hend
    rw [if_pos hnil]
    exact hfound _ htake (by rw [hdrop, hnil]; rfl)
  · obtain ⟨htake, hdrop⟩ := digits_before_point hwhole fraction
    obtain ⟨htake', hdrop'⟩ := digits_before hfraction hend
    rw [List.append_nil] at htake' hdrop'
    rw [if_neg hnil]
    exact hfound _ htake (by rw [hdrop, Number.splitFraction, htake', hdrop'])

/-- A numeral begins with a digit, so it is no word, and no sign is in front but the given
one. -/
theorem Valid.ofText? (h : numeral.Valid) (negative : Bool) :
    Number.ofText? (Number.withSign negative numeral.spelling.toList) =
      some (numeral.value negative) := by
  obtain ⟨c, hc, hdigit⟩ := h.opens
  obtain ⟨tail, hspelling⟩ : ∃ tail, numeral.spelling.toList = c :: tail :=
    ⟨_, (List.eq_cons_of_mem_head? hc)⟩
  have hsplit : Number.splitSign (Number.withSign negative numeral.spelling.toList) =
      (negative, numeral.spelling.toList) := by
    cases negative with
    | true => rfl
    | false =>
        rw [Number.withSign, hspelling]
        exact Number.splitSign.eq_3 _ (by rintro _ ⟨⟩; cases hdigit) (by rintro _ ⟨⟩; cases hdigit)
  have hword : ∀ word : String, Avoids (fun d => d.isDigit = true) word.toList →
      String.ofList (numeral.spelling.toList.map Char.toLower) ≠ word := by
    rintro _ havoids rfl
    rw [String.toList_ofList, hspelling, List.map_cons, toLower_of_isDigit hdigit] at havoids
    exact havoids c rfl hdigit
  unfold Number.ofText?
  rw [hsplit]
  dsimp only
  rw [if_neg (not_or.mpr ⟨hword "inf" (by decide), hword "infinity" (by decide)⟩),
    if_neg (hword "nan" (by decide))]
  exact h.ofDigits? negative

/-- A numeral is written without letters. -/
theorem Valid.not_infinity_suffix (h : numeral.Valid) (negative : Bool) :
    ¬ infinityWord <:+ Number.withSign negative numeral.spelling.toList := by
  intro hsuffix
  have hmem : 'f' ∈ Number.withSign negative numeral.spelling.toList :=
    hsuffix.subset (by decide)
  have hspelling : 'f' ∉ numeral.spelling.toList := by
    rw [toList_spelling, List.mem_append, not_or]
    refine ⟨fun hwhole => absurd (h.1.2 _ hwhole) (by decide), ?_⟩
    split
    · exact List.not_mem_nil
    · rw [List.mem_cons, not_or]
      exact ⟨by decide, fun hfraction => absurd (h.2 _ hfraction) (by decide)⟩
  cases negative with
  | true =>
      rcases List.mem_cons.mp hmem with hsign | htail
      · exact absurd hsign (by decide)
      · exact hspelling htail
  | false => exact hspelling hmem

end Numeral

section

variable {numeral : Numeral} {name : Rule}

theorem Numeral.Valid.readNumber (h : numeral.Valid) (negative : Bool) (field : String) :
    Node.readNumber field ⟨name, Number.withSign negative numeral.spelling.toList, inner⟩ =
      .ok (numeral.value negative) := by
  unfold Node.readNumber
  rw [h.ofText? negative]

theorem Numeral.Valid.buildPrecision (h : numeral.Valid) :
    Node.buildPrecision ⟨name, numeral.spelling.toList, inner⟩ =
      if Number.zero < numeral.value false then .ok (numeral.value false)
      else .error (.refused numeral.spelling) := by
  have hread : Node.readNumber "precision" ⟨name, numeral.spelling.toList, inner⟩ = _ :=
    h.readNumber false "precision"
  unfold Node.buildPrecision
  rw [hread]
  change (if _ then _ else _) = _
  rw [Node.text, String.ofList_toList]
  rfl

theorem Numeral.Valid.buildNumber (h : numeral.Valid) (negative : Bool) :
    Node.buildNumber ⟨name, Number.withSign negative numeral.spelling.toList, inner⟩ =
      .ok (numeral.value negative) := by
  unfold Node.buildNumber
  rw [if_neg (h.not_infinity_suffix negative)]
  exact h.readNumber negative "number"

end

/-! ## Numbers -/

theorem buildNumber_infinity {name : Rule} (h : infinityWord <:+ letters) :
    Node.buildNumber ⟨name, letters, inner⟩ =
      .ok (if ['-'] <+: letters then .negativeInfinity else .infinity) :=
  if_pos h

theorem showsNumber {constant : Number}
    (h : readNumber? (letters ++ rest) = some (constant, rest)) :
    ShowsNumber constant ⟨.number, letters, inner⟩ := by
  refine ⟨rfl, ?_⟩
  by_cases hminus : ∃ behind, letters ++ rest = '-' :: behind
  · obtain ⟨behind, htext⟩ := hminus
    rw [htext, readNumber?] at h
    split at h
    · next last hword =>
        cases h
        -- The gap behind the sign belongs to the letters.
        obtain ⟨hgap, -⟩ := stripWord?_eq_some_iff.mp hword
        obtain ⟨front, hfront⟩ := (gap_skipGap behind).suffix
        have hletters : letters ++ rest = ('-' :: front ++ infinityWord) ++ rest := by
          rw [htext, ← hfront, hgap]
          simp
        obtain rfl := List.append_cancel_right hletters
        exact buildNumber_infinity (List.suffix_append ('-' :: front) infinityWord)
    · obtain ⟨⟨numeral, last⟩, hread, heq⟩ := Option.map_eq_some_iff.mp h
      cases heq
      obtain ⟨hvalid, rfl⟩ := Numeral.text_of_read? hread
      obtain rfl : letters = '-' :: numeral.spelling.toList := List.append_cancel_right htext
      exact hvalid.buildNumber true
  · rw [readNumber?_plain fun behind heq => hminus ⟨behind, heq⟩] at h
    split at h
    · next last hword =>
        cases h
        obtain rfl := List.append_cancel_right (stripWord?_eq_some_iff.mp hword).1
        rfl
    · obtain ⟨⟨numeral, last⟩, hread, heq⟩ := Option.map_eq_some_iff.mp h
      cases heq
      obtain ⟨hvalid, htext⟩ := Numeral.text_of_read? hread
      obtain rfl := List.append_cancel_right htext
      exact hvalid.buildNumber false

end DecisionTuples
