import DecisionTuples.Json.Reader
import DecisionTuples.Json.Writer
import DecisionTuples.Proofs.Number.Shortest

/-!
# Numbers in JSON text

The data form of a number is read back as the number (`Json.readNumeral?_dataChars`), and
the digits of an integer as the integer (`Json.readNumeral?_writeInt`), whatever follows
a value in JSON text: nothing, a comma or a closing bracket.

Data form has a point or an exponent, or both.  With a point the digits before and
behind it are those of the decimal, except that whole numbers get a place they do not
need; with an exponent it is the very same decimal that is read.
-/

namespace DecisionTuples
namespace Json

/-- What can follow a value: nothing, a comma or a closing bracket. -/
def Closes (rest : List Char) : Prop := ∀ c ∈ rest.head?, c = ',' ∨ c = ']' ∨ c = '\x7d'

theorem Closes.nil : Closes [] := fun _ h => absurd h (Option.not_mem_none _)

theorem Closes.cons {c : Char} (h : c = ',' ∨ c = ']' ∨ c = '\x7d') (rest : List Char) :
    Closes (c :: rest) := by
  rintro _ ⟨⟩
  exact h

/-! ## Digits -/

/-- The text does not go on with a digit. -/
def EndsDigits (rest : List Char) : Prop := ∀ c ∈ rest.head?, c.isDigit = false

theorem Closes.endsDigits {rest : List Char} (h : Closes rest) : EndsDigits rest := by
  intro c hc
  rcases h c hc with rfl | rfl | rfl <;> decide

theorem EndsDigits.cons {c : Char} (h : c.isDigit = false) (rest : List Char) :
    EndsDigits (c :: rest) := by
  rintro _ ⟨⟩
  exact h

theorem takeWhile_isDigit {digits rest : List Char} (hdigits : ∀ c ∈ digits, c.isDigit = true)
    (hrest : EndsDigits rest) : (digits ++ rest).takeWhile Char.isDigit = digits := by
  rw [List.takeWhile_append_of_pos hdigits]
  cases rest with
  | nil => exact List.append_nil digits
  | cons c rest => rw [List.takeWhile_cons_of_neg (by simp [hrest c rfl]), List.append_nil]

theorem dropWhile_isDigit {digits rest : List Char} (hdigits : ∀ c ∈ digits, c.isDigit = true)
    (hrest : EndsDigits rest) : (digits ++ rest).dropWhile Char.isDigit = rest := by
  rw [List.dropWhile_append_of_pos hdigits]
  cases rest with
  | nil => rfl
  | cons c rest => rw [List.dropWhile_cons_of_neg (by simp [hrest c rfl])]

theorem readDigits?_append {digits rest : List Char} (hne : digits ≠ [])
    (hdigits : ∀ c ∈ digits, c.isDigit = true) (hrest : EndsDigits rest) :
    readDigits? (digits ++ rest) = some (digits, rest) := by
  unfold readDigits?
  rw [takeWhile_isDigit hdigits hrest, dropWhile_isDigit hdigits hrest]
  cases digits with
  | nil => exact absurd rfl hne
  | cons c digits => rfl

theorem readDigits?_toDigits (n : Nat) {rest : List Char} (hrest : EndsDigits rest) :
    readDigits? (Nat.toDigits 10 n ++ rest) = some (Nat.toDigits 10 n, rest) :=
  readDigits?_append Nat.toDigits_ne_nil
    (fun _ hc => Nat.isDigit_of_mem_toDigits (by decide) (by decide) hc) hrest

/-- A number that is not zero is written without zeros in front. -/
theorem head?_toDigits_ne {n : Nat} (hn : 0 < n) : (Nat.toDigits 10 n).head? ≠ some '0' := by
  induction n using Nat.strong_induction_on with
  | _ n ih =>
      by_cases hsmall : n < 10
      · have hdigit : ∀ n < 10, 0 < n → [n.digitChar].head? ≠ some '0' := by decide
        rw [Nat.toDigits_of_lt_base hsmall]
        exact hdigit n hsmall hn
      · rw [Nat.toDigits_of_base_le (by decide) (by omega),
          List.head?_append_of_ne_nil _ Nat.toDigits_ne_nil]
        exact ih (n / 10) (by omega) (by omega)

/-! ## The parts of a number -/

/-- The digits before a point: a zero alone, or digits that begin with none. -/
def IsWhole (whole : List Char) : Prop :=
  whole = ['0'] ∨
    whole ≠ [] ∧ whole.head? ≠ some '0' ∧ ∀ c ∈ whole, c.isDigit = true

theorem readWhole?_append {whole rest : List Char} (h : IsWhole whole) (hrest : EndsDigits rest) :
    readWhole? (whole ++ rest) = some (whole, rest) := by
  rcases h with rfl | ⟨hne, hhead, hdigits⟩
  · rfl
  · obtain ⟨first, others, rfl⟩ := List.exists_cons_of_ne_nil hne
    unfold readWhole?
    split
    · next heq => simp_all
    · exact readDigits?_append hne hdigits hrest

theorem readFraction?_point {fraction rest : List Char} (hne : fraction ≠ [])
    (hdigits : ∀ c ∈ fraction, c.isDigit = true) (hrest : EndsDigits rest) :
    readFraction? ('.' :: (fraction ++ rest)) = some (some fraction, rest) := by
  rw [readFraction?, readDigits?_append hne hdigits hrest]
  rfl

/-- An exponent may stand in the place of a point. -/
theorem readFraction?_mark (text : List Char) :
    readFraction? ('e' :: text) = some (none, 'e' :: text) := rfl

theorem readFraction?_none {rest : List Char} (h : Closes rest) :
    readFraction? rest = some (none, rest) := by
  unfold readFraction?
  split
  · exact absurd (h '.' rfl) (by decide)
  · rfl

theorem readExponent?_none {rest : List Char} (h : Closes rest) :
    readExponent? rest = some (none, rest) := by
  unfold readExponent?
  split
  · exact absurd (h 'e' rfl) (by decide)
  · exact absurd (h 'E' rfl) (by decide)
  · rfl

/-- An exponent, as it is written with its sign. -/
theorem readExponent?_sign (exponent : Int) {rest : List Char} (hrest : EndsDigits rest) :
    readExponent? ('e' :: (if exponent < 0 then '-' else '+') ::
      (Nat.toDigits 10 exponent.natAbs ++ rest)) = some (some exponent, rest) := by
  rw [readExponent?]
  by_cases hnegative : exponent < 0
  · have hvalue : -(Nat.ofDigitChars 10 (Nat.toDigits 10 exponent.natAbs) 0 : Int) = exponent := by
      rw [Nat.ofDigitChars_ten_toDigits]
      omega
    rw [if_pos hnegative, readSigned?, readDigits?_toDigits _ hrest]
    exact congrArg (fun value => some (some value, rest)) hvalue
  · have hvalue : (Nat.ofDigitChars 10 (Nat.toDigits 10 exponent.natAbs) 0 : Int) = exponent := by
      rw [Nat.ofDigitChars_ten_toDigits]
      omega
    rw [if_neg hnegative, readSigned?, readDigits?_toDigits _ hrest]
    exact congrArg (fun value => some (some value, rest)) hvalue

/-! ## Magnitudes -/

theorem readMagnitude?_point {whole fraction rest : List Char} (hwhole : IsWhole whole)
    (hne : fraction ≠ []) (hfraction : ∀ c ∈ fraction, c.isDigit = true) (hrest : Closes rest)
    (negative : Bool) :
    readMagnitude? negative (whole ++ '.' :: (fraction ++ rest)) =
      some (num ((Decimal.ofDigits whole fraction).toNumber negative), rest) := by
  have hpoint : EndsDigits ('.' :: (fraction ++ rest)) := .cons (by decide) _
  rw [readMagnitude?, readWhole?_append hwhole hpoint]
  simp [readFraction?_point hne hfraction hrest.endsDigits, readExponent?_none hrest, ofParts,
    Decimal.shift]

/-- One digit, or one digit and a fraction, before an exponent. -/
theorem readMagnitude?_exponent {first : Char} {others rest : List Char}
    (hfirst : IsWhole [first]) (hothers : ∀ c ∈ others, c.isDigit = true) (exponent : Int)
    (hrest : Closes rest) (negative : Bool) :
    readMagnitude? negative (first :: ((if others = [] then [] else '.' :: others) ++
        'e' :: (if exponent < 0 then '-' else '+') ::
          (Nat.toDigits 10 exponent.natAbs ++ rest))) =
      some (num (((Decimal.ofDigits [first] others).shift exponent).toNumber negative), rest) := by
  have hexponent := readExponent?_sign exponent hrest.endsDigits
  have hmark : EndsDigits ('e' :: (if exponent < 0 then '-' else '+') ::
      (Nat.toDigits 10 exponent.natAbs ++ rest)) := .cons (by decide) _
  by_cases hnone : others = []
  · have hwhole := readWhole?_append hfirst hmark
    have hfraction := readFraction?_mark ((if exponent < 0 then '-' else '+') ::
      (Nat.toDigits 10 exponent.natAbs ++ rest))
    rw [if_pos hnone, List.nil_append, readMagnitude?, ← List.singleton_append, hwhole]
    simp [hfraction, hexponent, ofParts, hnone]
  · have hpoint : EndsDigits ('.' :: (others ++ 'e' :: (if exponent < 0 then '-' else '+') ::
        (Nat.toDigits 10 exponent.natAbs ++ rest))) := .cons (by decide) _
    have hwhole := readWhole?_append hfirst hpoint
    have hfraction := readFraction?_point hnone hothers hmark
    rw [if_neg hnone, List.cons_append, readMagnitude?, ← List.singleton_append, hwhole]
    simp [hfraction, hexponent, ofParts]

/-- The first digits of a number that is not zero can stand before a point. -/
theorem isWhole_of_toDigits {n : Nat} (hn : 0 < n) {front behind : List Char}
    (h : Nat.toDigits 10 n = front ++ behind) (hne : front ≠ []) : IsWhole front := by
  refine .inr ⟨hne, ?_, fun c hc => ?_⟩
  · have hhead : (front ++ behind).head? = front.head? := List.head?_append_of_ne_nil front hne
    rw [← hhead, ← h]
    exact head?_toDigits_ne hn
  · exact Nat.isDigit_of_mem_toDigits (by decide) (by decide) (h ▸ List.mem_append_left _ hc)

theorem readMagnitude?_scientific {d : Decimal} (hdigits : 0 < d.digits) {rest : List Char}
    (hrest : Closes rest) (negative : Bool) :
    readMagnitude? negative (d.scientific ++ rest) = some (num (d.toNumber negative), rest) := by
  obtain ⟨first, others, hsplit⟩ := List.exists_cons_of_ne_nil
    (Nat.toDigits_ne_nil : Nat.toDigits 10 d.digits ≠ [])
  have hfirst : IsWhole [first] := isWhole_of_toDigits hdigits hsplit (List.cons_ne_nil _ _)
  have hothers : ∀ c ∈ others, c.isDigit = true := fun c hc =>
    Nat.isDigit_of_mem_toDigits (by decide) (by decide) (hsplit ▸ List.mem_cons_of_mem _ hc)
  have htext : d.scientific ++ rest = first :: ((if others = [] then [] else '.' :: others) ++
      'e' :: (if d.leadingExponent < 0 then '-' else '+') ::
        (Nat.toDigits 10 d.leadingExponent.natAbs ++ rest)) := by
    unfold Decimal.scientific Decimal.digitChars
    rw [hsplit]
    cases others <;> simp
  have hvalue : (Decimal.ofDigits [first] others).shift d.leadingExponent = d := by
    have hnumber : Nat.ofDigitChars 10 ([first] ++ others) 0 = d.digits := by
      rw [List.singleton_append, ← hsplit, Nat.ofDigitChars_ten_toDigits]
    have hplace : -(others.length : Int) + d.leadingExponent = d.exponent := by
      rw [Decimal.leadingExponent, Decimal.digitChars, hsplit, List.length_cons]
      omega
    rw [Decimal.ofDigits, Decimal.shift, hnumber, hplace]
  rw [htext, readMagnitude?_exponent hfirst hothers _ hrest, hvalue]

/-- With decimal places the positional form has a point, and the digits around it are those
of the decimal. -/
theorem exists_positional_eq {d : Decimal} (hdigits : 0 < d.digits) (hexponent : d.exponent < 0) :
    ∃ whole fraction, IsWhole whole ∧ fraction ≠ [] ∧ (∀ c ∈ fraction, c.isDigit = true) ∧
      d.positional = whole ++ '.' :: fraction ∧ Decimal.ofDigits whole fraction = d := by
  obtain ⟨digits, exponent⟩ := d
  obtain ⟨places, rfl⟩ : ∃ places : Nat, exponent = -((places + 1 : Nat) : Int) :=
    ⟨(-exponent).toNat - 1, by dsimp only at hexponent; omega⟩
  have hplaces : (- -((places + 1 : Nat) : Int)).toNat = places + 1 := by omega
  have hall : ∀ c ∈ Nat.toDigits 10 digits, c.isDigit = true := fun c hc =>
    Nat.isDigit_of_mem_toDigits (by decide) (by decide) hc
  have hvalue := Nat.ofDigitChars_ten_toDigits (n := digits)
  unfold Decimal.positional Decimal.digitChars
  dsimp only
  rw [hplaces, if_neg (Nat.succ_ne_zero places)]
  by_cases hfew : places + 1 < (Nat.toDigits 10 digits).length
  · -- The point stands between two digits.
    have hsplit := (List.take_append_drop ((Nat.toDigits 10 digits).length - (places + 1))
      (Nat.toDigits 10 digits)).symm
    have hfraction : ((Nat.toDigits 10 digits).drop
        ((Nat.toDigits 10 digits).length - (places + 1))).length = places + 1 := by
      rw [List.length_drop]
      omega
    have hwhole : ((Nat.toDigits 10 digits).take
        ((Nat.toDigits 10 digits).length - (places + 1))).length ≠ 0 := by
      rw [List.length_take]
      omega
    refine ⟨_, _, isWhole_of_toDigits hdigits hsplit fun h => hwhole (h ▸ rfl), ?_,
      fun c hc => hall c (List.mem_of_mem_drop hc), if_pos hfew, ?_⟩
    · exact fun h => by simp [h] at hfraction
    · rw [Decimal.ofDigits, ← hsplit, hvalue, hfraction]
  · refine ⟨['0'], List.replicate (places + 1 - (Nat.toDigits 10 digits).length) '0' ++
      Nat.toDigits 10 digits, .inl rfl, ?_, ?_, if_neg hfew, ?_⟩
    · exact fun h => Nat.toDigits_ne_nil (List.append_eq_nil_iff.mp h).2
    · intro c hc
      rcases List.mem_append.mp hc with hzero | hdigit
      · rw [(List.mem_replicate.mp hzero).2]
        decide
      · exact hall c hdigit
    · have hzeros : Nat.ofDigitChars 10 (['0'] ++ (List.replicate
          (places + 1 - (Nat.toDigits 10 digits).length) '0' ++ Nat.toDigits 10 digits)) 0 =
            digits := by
        have hzero : Nat.ofDigitChars 10 ['0'] 0 = 0 := rfl
        rw [Nat.ofDigitChars_append, Nat.ofDigitChars_append, Nat.ofDigitChars_replicate_zero,
          hzero, Nat.mul_zero, hvalue]
      have hlength : (List.replicate (places + 1 - (Nat.toDigits 10 digits).length) '0' ++
          Nat.toDigits 10 digits).length = places + 1 := by
        rw [List.length_append, List.length_replicate]
        omega
      rw [Decimal.ofDigits, hzeros, hlength]

/-- Without decimal places the positional form is the digits and the zeros behind them. -/
theorem positional_whole (digits exponent : Nat) :
    (Decimal.mk digits exponent).positional =
      Nat.toDigits 10 digits ++ List.replicate exponent '0' := by
  have hplaces : (-(exponent : Int)).toNat = 0 := by omega
  have hcount : (exponent : Int).toNat = exponent := by omega
  rw [Decimal.positional]
  dsimp only
  rw [hplaces, if_pos rfl, hcount]
  rfl

theorem isWhole_positional {digits : Nat} (hdigits : 0 < digits) (exponent : Nat) :
    IsWhole (Decimal.mk digits exponent).positional := by
  rw [positional_whole]
  refine .inr ⟨?_, ?_, fun c hc => ?_⟩
  · exact fun h => Nat.toDigits_ne_nil (List.append_eq_nil_iff.mp h).1
  · rw [List.head?_append_of_ne_nil _ Nat.toDigits_ne_nil]
    exact head?_toDigits_ne hdigits
  · rcases List.mem_append.mp hc with hdigit | hzero
    · exact Nat.isDigit_of_mem_toDigits (by decide) (by decide) hdigit
    · rw [(List.mem_replicate.mp hzero).2]
      decide

/-- A whole number gets a place that it does not need. -/
theorem readMagnitude?_whole {digits exponent : Nat} (hdigits : 0 < digits)
    (hexponent : exponent ≤ 400) {rest : List Char} (hrest : Closes rest) (negative : Bool) :
    readMagnitude? negative ((Decimal.mk digits exponent).positional ++ ['.', '0'] ++ rest) =
      some (num ((Decimal.mk digits exponent).toNumber negative), rest) := by
  have hwhole := isWhole_positional hdigits exponent
  have hvalue : Decimal.ofDigits (Decimal.mk digits exponent).positional ['0'] =
      ⟨digits * tenTo (exponent + 1), -1⟩ := by
    have hzeros : List.replicate exponent '0' ++ ['0'] = List.replicate (exponent + 1) '0' :=
      List.replicate_succ'.symm
    rw [Decimal.ofDigits, positional_whole, List.append_assoc, hzeros, Nat.ofDigitChars_append,
      Nat.ofDigitChars_ten_toDigits, Nat.ofDigitChars_replicate_zero, Nat.mul_comm]
    rfl
  have hzero : ∀ c ∈ ['0'], c.isDigit = true := List.forall_mem_singleton.mpr rfl
  have hread := readMagnitude?_point hwhole (List.cons_ne_nil '0' []) hzero hrest negative
  rw [hvalue, Decimal.toNumber_withPlace hexponent] at hread
  rw [← hread, List.append_assoc]
  rfl

theorem readMagnitude?_dataForm {d : Decimal} (hdigits : 0 < d.digits) {rest : List Char}
    (hrest : Closes rest) (negative : Bool) :
    readMagnitude? negative (d.dataForm ++ rest) = some (num (d.toNumber negative), rest) := by
  unfold Decimal.dataForm
  by_cases hleading : -5 ≤ d.leadingExponent ∧ d.leadingExponent < 16
  · rw [if_pos hleading]
    by_cases hwhole : 0 ≤ d.exponent
    · obtain ⟨digits, exponent⟩ := d
      obtain ⟨exponent, rfl⟩ : ∃ e : Nat, exponent = e := Int.eq_ofNat_of_zero_le hwhole
      have hlength : 0 < (Nat.toDigits 10 digits).length := Nat.length_toDigits_pos
      simp only [Decimal.leadingExponent, Decimal.digitChars] at hleading
      rw [if_pos hwhole]
      exact readMagnitude?_whole hdigits (by omega) hrest negative
    · obtain ⟨whole, fraction, hw, hne, hf, htext, hvalue⟩ :=
        exists_positional_eq hdigits (by omega)
      rw [if_neg hwhole, htext, List.append_assoc, List.cons_append,
        readMagnitude?_point hw hne hf hrest, hvalue]
  · rw [if_neg hleading]
    exact readMagnitude?_scientific hdigits hrest negative

/-! ## Numbers -/

/-- A text that is read as a number without sign begins with a digit. -/
theorem isDigit_head_of_readMagnitude? {negative : Bool} {text rest : List Char} {json : Json}
    (h : readMagnitude? negative text = some (json, rest)) :
    ∃ c ∈ text.head?, c.isDigit = true := by
  obtain ⟨⟨whole, behind⟩, hwhole, -⟩ := Option.bind_eq_some_iff.mp h
  unfold readWhole? at hwhole
  split at hwhole
  · exact ⟨'0', rfl, by decide⟩
  · cases text with
    | nil => cases hwhole
    | cons c text =>
        refine ⟨c, rfl, ?_⟩
        by_contra hc
        rw [readDigits?, List.takeWhile_cons_of_neg hc] at hwhole
        cases hwhole

/-- A text that is read as a number begins with a digit or a minus sign. -/
theorem head_of_readNumeral? {text rest : List Char} {json : Json}
    (h : readNumeral? text = some (json, rest)) :
    ∃ c ∈ text.head?, c.isDigit = true ∨ c = '-' := by
  unfold readNumeral? at h
  split at h
  · exact ⟨'-', rfl, .inr rfl⟩
  · obtain ⟨c, hc, hdigit⟩ := isDigit_head_of_readMagnitude? h
    exact ⟨c, hc, .inl hdigit⟩

/-- A number is read under the sign that is put in front of it. -/
theorem readNumeral?_withSign {negative : Bool} {text rest : List Char} {json : Json}
    (h : readMagnitude? negative (text ++ rest) = some (json, rest)) :
    readNumeral? (Number.withSign negative text ++ rest) = some (json, rest) := by
  cases negative with
  | true => exact h
  | false =>
      obtain ⟨c, hc, hdigit⟩ := isDigit_head_of_readMagnitude? h
      change readNumeral? (text ++ rest) = _
      unfold readNumeral?
      split
      · next heq =>
          rw [heq] at hc
          cases hc
          exact absurd hdigit (by decide)
      · exact h

/-- The data form of a number is read back. -/
theorem readNumeral?_dataChars {a : Number} {text : List Char} (h : a.dataChars? = some text)
    {rest : List Char} (hrest : Closes rest) :
    readNumeral? (text ++ rest) = some (num a, rest) := by
  cases a with
  | nan => cases h
  | signed negative rank =>
      have hrank : Number.ofRank negative rank.val = .signed negative rank := by
        have hle : rank.val ≤ infiniteRank := Nat.le_of_lt_succ rank.isLt
        rw [Number.ofRank]
        congr
        exact Nat.min_eq_left hle
      simp only [Number.dataChars?] at h
      split at h
      · cases h
      · next hfinite =>
          split at h
          · next hzero =>
              cases h
              refine readNumeral?_withSign ?_
              have hvalue : (Decimal.ofDigits ['0'] ['0']).toNumber negative =
                  .signed negative rank := by
                rw [← hrank, hzero]
                exact if_pos rfl
              rw [← hvalue]
              exact readMagnitude?_point (.inl rfl) (List.cons_ne_nil '0' [])
                (List.forall_mem_singleton.mpr rfl) hrest negative
          · next hpos =>
              cases h
              have hlt : rank.val < infiniteRank := by omega
              have hreads := Decimal.shortest_readsAs .toEven hlt
              have hdigits := hreads.digits_ne_zero hlt.le (Nat.pos_of_ne_zero hpos)
              refine readNumeral?_withSign ?_
              rw [readMagnitude?_dataForm (Nat.pos_of_ne_zero hdigits) hrest,
                hreads.toNumber_eq hlt.le, hrank]

theorem readNumeral?_writeInt (value : Int) {rest : List Char} (hrest : Closes rest) :
    readNumeral? (writeInt value rest) = some (int value, rest) := by
  have hwhole : IsWhole (Nat.toDigits 10 value.natAbs) := by
    rcases Nat.eq_zero_or_pos value.natAbs with hzero | hpos
    · exact .inl (by rw [hzero]; rfl)
    · exact isWhole_of_toDigits hpos (List.append_nil _).symm Nat.toDigits_ne_nil
  have hmagnitude : readMagnitude? (decide (value < 0)) (Nat.toDigits 10 value.natAbs ++ rest) =
      some (int value, rest) := by
    have hvalue : ofParts (decide (value < 0)) (Nat.toDigits 10 value.natAbs) none none =
        int value := by
      unfold ofParts
      rw [Nat.ofDigitChars_ten_toDigits]
      by_cases hnegative : value < 0
      · have hne : value.natAbs ≠ 0 := by omega
        have hint : -(value.natAbs : Int) = value := by omega
        simp only [hnegative, decide_true, if_true, if_neg hne, hint]
      · have hint : (value.natAbs : Int) = value := by omega
        simp only [hnegative, decide_false, Bool.false_eq_true, if_false, hint]
    rw [readMagnitude?, readWhole?_append hwhole hrest.endsDigits]
    simp [readFraction?_none hrest, readExponent?_none hrest, hvalue]
  have hsign : writeInt value rest =
      Number.withSign (decide (value < 0)) (Nat.toDigits 10 value.natAbs) ++ rest := by
    unfold writeInt Number.withSign
    by_cases hnegative : value < 0 <;> simp [hnegative]
  rw [hsign]
  exact readNumeral?_withSign hmagnitude

end Json
end DecisionTuples
