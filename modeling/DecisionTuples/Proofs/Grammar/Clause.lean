import DecisionTuples.Proofs.Grammar.Language
import DecisionTuples.Proofs.Grammar.Spelling

/-!
# Conditions and declarations are read back

The forms of a condition are tried in order, so for each written condition the forms
before its own have to fail.  They do, because a name that can be written is neither a
truth value nor a number, and the word `in` is no operator.  One case looks further: a
comparison that begins with the word for infinity begins like a comparison of a variable
with a truth value, but does not end like one.
-/

namespace DecisionTuples

namespace Parser

variable {follow : List Char → Prop} {name : String} {a : Number}

/-! ## Words -/

theorem varWord_takes : Takes follow varWord [['v', 'a', 'r']] () :=
  .rule (word_takes ⟨'v', rfl, by decide⟩)

theorem ifWord_takes : Takes follow ifWord [['i', 'f']] () :=
  .rule (word_takes ⟨'i', rfl, by decide⟩)

theorem elseWord_takes : Takes follow elseWord [['e', 'l', 's', 'e']] () :=
  .rule (word_takes ⟨'e', rfl, by decide⟩)

theorem inWord_takes : Takes follow inWord [['i', 'n']] () :=
  .rule (word_takes ⟨'i', rfl, by decide⟩)

/-! ## Conditions -/

theorem truthFirst_takes (h : IsName name.toList) (equality : Equality) (value : Bool) :
    Takes follow truthFirst [truthToken value, equality.spelling, name.toList]
      (.truth name equality value) :=
  .rule ((truthValue_takes value).then ((equality_takes equality).then
    ((variableName_takes h).map _)))

theorem truthLast_takes (h : IsName name.toList) (equality : Equality) (value : Bool) :
    Takes follow truthLast [name.toList, equality.spelling, truthToken value]
      (.truth name equality value) :=
  .rule ((variableName_takes h).then ((equality_takes equality).then
    ((truthValue_takes value).map _)))

theorem numberFirst_takes (h : IsName name.toList) (ha : a ≠ .nan) (written : Comparison) :
    Takes follow numberFirst [a.exactToken, written.spelling, name.toList]
      (.comparison name .left a written) :=
  .rule ((number_takes ha).then ((comparison_takes written).then ((variableName_takes h).map _)))

theorem numberLast_takes (h : IsName name.toList) (ha : a ≠ .nan) (written : Comparison) :
    Takes follow numberLast [name.toList, written.spelling, a.exactToken]
      (.comparison name .right a written) :=
  .rule ((variableName_takes h).then ((comparison_takes written).then ((number_takes ha).map _)))

theorem interval_takes (bounds : Interval) (openness : Openness) (hlo : bounds.lo ≠ .nan)
    (hhi : bounds.hi ≠ .nan) :
    Takes follow interval [openness.lowerToken, bounds.lo.exactToken, [','],
      bounds.hi.exactToken, openness.upperToken] (bounds, openness) :=
  .rule ((lowerBracket_takes openness).then ((number_takes hlo).then
    ((literal_takes ⟨',', rfl, by decide⟩).then ((number_takes hhi).then
      ((upperBracket_takes openness).map _)))))

theorem membership_takes (h : IsName name.toList) (bounds : Interval) (openness : Openness)
    (hlo : bounds.lo ≠ .nan) (hhi : bounds.hi ≠ .nan) :
    Takes follow membership [name.toList, ['i', 'n'], openness.lowerToken, bounds.lo.exactToken,
      [','], bounds.hi.exactToken, openness.upperToken] (.membership name bounds openness) :=
  .rule ((variableName_takes h).then (inWord_takes.then
    ((interval_takes bounds openness hlo hhi).map fun found =>
      Condition.membership name found.1 found.2)))

/-- A comparison that does not end in a truth value is no comparison with one. -/
theorem truthLast_refuses {first third : Token} (written : Comparison)
    (hfirst : Refuses Anyhow variableName [first] ∨ ∃ name, Takes Anyhow variableName [first] name)
    (hthird : Refuses Anyhow truthValue [third]) :
    Refuses follow truthLast [first, written.spelling, third] := by
  rcases hfirst with hrefuses | ⟨name, htakes⟩
  · exact hrefuses.first.append [written.spelling, third]
  · refine .second htakes ?_
    rcases readSymbol?_equality_comparison written with ⟨equality, heq⟩ | hnone
    · rw [heq]
      exact .second (equality_takes equality) (hthird.first.append [])
    · have hrefuses : Refuses Anyhow equality [written.spelling] :=
        .lexeme ((opens_comparison written).mono OperatorStart.solid) fun rest _ => hnone rest
      exact hrefuses.first.append [third]

theorem truthValue_refuses_name (h : NameWritable name) :
    Refuses follow truthValue [name.toList] :=
  truthValue_refuses h.1 (h.toList_ne _ (by decide)) (h.toList_ne _ (by decide))

/-- A condition that begins with the name of a variable does not begin with a truth
value. -/
theorem truthFirst_refuses (h : NameWritable name) (others : List Token) :
    Refuses follow truthFirst (name.toList :: others) :=
  (truthValue_refuses_name h).first.append others

theorem numberFirst_refuses (h : NameWritable name) (others : List Token) :
    Refuses follow numberFirst (name.toList :: others) := by
  have hnumber : Refuses Anyhow number [name.toList] :=
    number_refuses h.1 (h.toList_ne _ (by decide))
  exact hnumber.first.append others

/-- The word `in` is no comparison. -/
theorem refuses_in {α β : Type} {operator : Parser α} {f : String → α → Parser β} {form : Form}
    (hoperator : operator.Sound form) (hform : form.Begins OperatorStart) (h : IsName name.toList)
    (others : List Token) :
    Refuses follow (variableName >>= fun name => operator >>= f name)
      (name.toList :: ['i', 'n'] :: others) := by
  have hrefuses : Refuses Anyhow operator [['i', 'n']] :=
    hoperator.refuses hform ⟨'i', ['n'], [], rfl, by decide, by simp [OperatorStart]⟩
  exact .second (variableName_takes h) (hrefuses.first.append others)

/-- A condition is read back, whatever follows it. -/
theorem condition_takes (style : Style) {written : Condition} (h : written.Writable) :
    Takes follow condition (style.condition written) written := by
  obtain ⟨hname, hparts⟩ := h
  cases written with
  | truth name equality value =>
      have hfirst : Takes follow condition [truthToken value, equality.spelling, name.toList]
          (.truth name equality value) :=
        .left (truthFirst_takes hname.1 equality value) _
      have hlast : Takes follow condition [name.toList, equality.spelling, truthToken value]
          (.truth name equality value) :=
        .right (truthFirst_refuses hname _) (.left (truthLast_takes hname.1 equality value) _)
      rw [Style.condition]
      split
      · exact hfirst
      · exact hlast
  | comparison name side constant operator =>
      have hconstant : Refuses Anyhow truthValue [constant.exactToken] :=
        truthValue_refuses_number hparts
      cases side with
      | left =>
          have hfirst : Refuses follow truthFirst
              [constant.exactToken, operator.spelling, name.toList] :=
            hconstant.first.append [operator.spelling, name.toList]
          have hlast : Refuses follow truthLast
              [constant.exactToken, operator.spelling, name.toList] :=
            truthLast_refuses operator (variableName_number hparts) (truthValue_refuses_name hname)
          exact .right hfirst (.right hlast (.left (numberFirst_takes hname.1 hparts operator) _))
      | right =>
          have hlast : Refuses follow truthLast
              [name.toList, operator.spelling, constant.exactToken] :=
            truthLast_refuses operator (.inr ⟨name, variableName_takes hname.1⟩) hconstant
          refine .right (truthFirst_refuses hname _) (.right hlast ?_)
          refine .right (numberFirst_refuses hname _) ?_
          exact .left (numberLast_takes hname.1 hparts operator) _
  | membership name bounds openness =>
      -- The forms before the last one fail at the name or behind it, at the word `in`.
      refine .right (truthFirst_refuses hname _) ?_
      refine .right (refuses_in equality_sound begins_equality hname.1 _) ?_
      refine .right (numberFirst_refuses hname _) ?_
      refine .right (refuses_in comparison_sound begins_comparison hname.1 _) ?_
      exact membership_takes hname.1 bounds openness hparts.1 hparts.2

theorem conditions_takes (style : Style) {written : List Condition} (h : GuardWritable written) :
    Takes (Avoids (· = '&')) conditions ([['&', '&']].intercalate (written.map style.condition))
      written := by
  obtain ⟨hne, hwritten⟩ := h
  obtain ⟨first, others, rfl⟩ := List.exists_cons_of_ne_nil hne
  obtain ⟨hfirst, hothers⟩ := List.forall_mem_cons.mp hwritten
  have hsign : (Form.sequence (.symbol ['&', '&']) .condition).Begins (· = '&') :=
    .sequence (.symbol '&' ['&'])
  have hsound : Sound (literal ['&', '&'] >>= fun _ => condition)
      (.sequence (.symbol ['&', '&']) .condition) :=
    (literal_sound _).bind fun _ => condition_sound
  have hmore : ∀ other ∈ others, Takes Anyhow (literal ['&', '&'] >>= fun _ => condition)
      (['&', '&'] :: style.condition other) other := by
    intro other hother
    exact (literal_takes ⟨'&', rfl, by decide⟩).then (condition_takes style (hothers other hother))
  have hstart : ∀ other ∈ others, Starts (· = '&') (['&', '&'] :: style.condition other) :=
    fun other _ => ⟨'&', ['&'], style.condition other, rfl, rfl⟩
  have hmany := Takes.many hmore hstart (forall_eq.mpr (by decide)) (fun _ _ => trivial)
    (fun _ _ => trivial) (hsound.stops hsign)
  rw [List.map_id'] at hmany
  rw [List.map_cons, intercalate_cons, List.flatMap_map]
  exact (condition_takes style hfirst).then (hmany.map _)

theorem guard_takes (style : Style) {written : List Condition} (h : GuardWritable written) :
    Takes follow guard (style.guard written) written := by
  refine (literal_takes ⟨'(', rfl, by decide⟩).then ((conditions_takes style h).bind
    ((literal_takes ⟨')', rfl, by decide⟩).map fun _ => written) fun rest _ => ?_)
  exact Starts.avoids ⟨')', [], rest, rfl, by decide⟩

end Parser

/-! ## Declarations -/

namespace Number

/-- A finite number above zero has no sign and a rank between zero and infinity. -/
theorem exists_rank_of_isPositive {a : Number} (hpositive : a.isPositive = true)
    (hfinite : a.isFinite = true) :
    ∃ rank : Fin (infiniteRank + 1), a = signed false rank ∧ rank.val < infiniteRank := by
  have hlt : zero < a := of_decide_eq_true hpositive
  cases a with
  | nan => cases hfinite
  | signed negative rank =>
      cases negative with
      | true =>
          have hplace : (0 : Int) < -(rank.val : Int) := hlt
          omega
      | false => exact ⟨rank, rfl, of_decide_eq_true hfinite⟩

/-- The digits of a number, without its sign. -/
def digits : Number → Numeral
  | nan => ⟨[], []⟩
  | signed _ rank => exactNumeral rank.val

end Number

/-- The type of a declaration as it is written. -/
def Style.typeExpr (style : Style) (declared : Variable) : TypeExpr :=
  match declared.type with
  | .bool => .bool
  | .number precision =>
    if style.named declared ∧ declared.type = .int then .int
    else if style.named declared ∧ declared.type = .num then .num
    else .numWith precision.digits

namespace Parser

theorem precision_takes {a : Number} (hpositive : a.isPositive = true)
    (hfinite : a.isFinite = true) : Takes follow precision [a.exactToken] a.digits := by
  obtain ⟨rank, rfl, hrank⟩ := Number.exists_rank_of_isPositive hpositive hfinite
  have hvalid := Number.valid_exactNumeral rank.val
  have htoken : (Number.signed false rank).exactToken =
      (Number.exactNumeral rank.val).spelling.toList := if_neg hrank.ne
  rw [htoken]
  exact .rule (.lexeme (hvalid.opens.mono fun _ => solid_of_isDigit) fun _ hrest =>
    hvalid.read? (hrest.avoids (by decide)))

theorem preciseType_takes {a : Number} (hpositive : a.isPositive = true)
    (hfinite : a.isFinite = true) : Takes follow (rule .preciseType do
      literal ['n', 'u', 'm']
      literal ['(']
      let digits ← precision
      literal [')']
      return TypeExpr.numWith digits) [['n', 'u', 'm'], ['('], a.exactToken, [')']]
        (.numWith a.digits) :=
  .rule ((literal_takes ⟨'n', rfl, by decide⟩).then ((literal_takes ⟨'(', rfl, by decide⟩).then
    ((precision_takes hpositive hfinite).then ((literal_takes ⟨')', rfl, by decide⟩).map _))))

/-- A number type without a precision is not taken for one with a precision. -/
theorem preciseType_refuses : Refuses (Avoids (· = '(')) (rule .preciseType do
    literal ['n', 'u', 'm']
    literal ['(']
    let digits ← precision
    literal [')']
    return TypeExpr.numWith digits) [['n', 'u', 'm']] := by
  have hopen : Refuses (Avoids (· = '(')) (literal ['(']) [] :=
    (literal_sound _).stops (.symbol '(' [])
  exact .second (literal_takes ⟨'n', rfl, by decide⟩) hopen.first

/-- A declared type is read back, if no parenthesis follows it. -/
theorem typeExpr_takes (style : Style) {declared : Variable} (h : declared.Writable) :
    Takes (Avoids (· = '(')) typeExpr (style.type declared) (style.typeExpr declared) := by
  obtain ⟨name, type⟩ := declared
  have hbool {c : Char} (hc : Solid c ∧ ¬ c = 'b') (tail : List Char) (others : List Token) :
      Refuses (Avoids (· = '(')) (rule .boolType do
        literal ['b', 'o', 'o', 'l']
        return TypeExpr.bool) ((c :: tail) :: others) :=
    ((literal_sound _).map _).refuses (.symbol 'b' _) ⟨c, tail, others, rfl, hc⟩
  have hint {c : Char} (hc : Solid c ∧ ¬ c = 'i') (tail : List Char) (others : List Token) :
      Refuses (Avoids (· = '(')) (rule .intType do
        literal ['i', 'n', 't']
        return TypeExpr.int) ((c :: tail) :: others) :=
    ((literal_sound _).map _).refuses (.symbol 'i' _) ⟨c, tail, others, rfl, hc⟩
  unfold Style.type Style.typeExpr
  cases type with
  | bool => exact .left ((literal_takes ⟨'b', rfl, by decide⟩).map _) _
  | number precision =>
      obtain ⟨hpositive, hfinite⟩ := h.2 precision rfl
      dsimp only
      split_ifs
      · exact .right (hbool (by decide) _ _) (.left ((literal_takes ⟨'i', rfl, by decide⟩).map _) _)
      · exact .right (hbool (by decide) _ _) (.right (hint (by decide) _ _)
          (.right preciseType_refuses ((literal_takes ⟨'n', rfl, by decide⟩).map _)))
      · exact .right (hbool (by decide) _ _) (.right (hint (by decide) _ _)
          (.left (preciseType_takes hpositive hfinite) _))

theorem declaration_takes (style : Style) {declared : Variable} (h : declared.Writable) :
    Takes (Avoids (· = '(')) declaration (style.declaration declared)
      (.declaration declared.name (style.typeExpr declared)) :=
  .rule (varWord_takes.then ((variableName_takes h.1.1).then
    ((literal_takes ⟨':', rfl, by decide⟩).then ((typeExpr_takes style h).map _))))

end Parser

/-- The type that is written is the declared one. -/
theorem Style.valueType_typeExpr (style : Style) {declared : Variable} (h : declared.Writable) :
    (style.typeExpr declared).valueType = .ok declared.type := by
  obtain ⟨name, type⟩ := declared
  unfold typeExpr
  cases type with
  | bool => rfl
  | number precision =>
      obtain ⟨hpositive, hfinite⟩ := h.2 precision rfl
      obtain ⟨rank, rfl, hrank⟩ := Number.exists_rank_of_isPositive hpositive hfinite
      have hvalue : (Number.signed false rank).digits.value false = .signed false rank := by
        rw [Number.digits, Numeral.value_exactNumeral hrank, Number.ofRank_val]
      dsimp only
      split_ifs with hint hnum
      · exact congrArg Except.ok hint.2.symm
      · exact congrArg Except.ok hnum.2.symm
      · rw [TypeExpr.valueType, hvalue, if_pos (of_decide_eq_true hpositive)]

end DecisionTuples
