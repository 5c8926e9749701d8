import DecisionTuples.Proofs.Json.Number

/-!
# JSON text is read back

The text of a value is read as the value (`Json.ofText?_text`), if its numbers are finite,
no object repeats a key and it is not nested too deeply: numbers that are not finite have
no text of their own, of a repeated key only the last field is kept, and the reader refuses
to open ever more arrays and objects.

The reader carries a bound on its steps.  What it reads back with one bound it reads back
with the next, so the proof is an induction on the bound; how large the bound has to be is
said by the length of the text.  How much room there has to be for opening arrays and
objects is said by the nesting of the value.
-/

namespace DecisionTuples
namespace Json

/-! ## Strings -/

theorem hexValue?_digitChar {n : Nat} (hn : n < 16) : hexValue? n.digitChar = some n := by
  have hall : ∀ n < 16, hexValue? n.digitChar = some n := by decide
  exact hall n hn

/-- The two digits of a control character are its code unit. -/
theorem codeUnit?_control {n : Nat} (hn : n < 32) :
    codeUnit? '0' '0' (n / 16).digitChar (n % 16).digitChar = some n := by
  have hhigh := hexValue?_digitChar (by omega : n / 16 < 16)
  have hlow := hexValue?_digitChar (by omega : n % 16 < 16)
  have hzero : hexValue? '0' = some 0 := by decide
  have hvalue : ((0 * 16 + 0) * 16 + n / 16) * 16 + n % 16 = n := by omega
  simp [codeUnit?, hhigh, hlow, hzero]
  omega

/-- A character is written as a letter that stands for it, as its code unit, or as
itself. -/
theorem escapeChar_cases (c : Char) :
    (∃ letter, escapeChar c = ['\\', letter] ∧ letter ≠ 'u' ∧ unescape? letter = some c) ∨
      (c.toNat < 32 ∧ escapeChar c =
        ['\\', 'u', '0', '0', (c.toNat / 16).digitChar, (c.toNat % 16).digitChar]) ∨
      (c ≠ '"' ∧ c ≠ '\\' ∧ ¬ c.toNat < 32 ∧ escapeChar c = [c]) := by
  generalize hwritten : escapeChar c = written
  unfold escapeChar at hwritten
  split at hwritten
  · next h => exact .inl ⟨'"', hwritten.symm, by decide, by rw [h]; rfl⟩
  split at hwritten
  · next h => exact .inl ⟨'\\', hwritten.symm, by decide, by rw [h]; rfl⟩
  split at hwritten
  · next h => exact .inl ⟨'n', hwritten.symm, by decide, by rw [h]; rfl⟩
  split at hwritten
  · next h => exact .inl ⟨'r', hwritten.symm, by decide, by rw [h]; rfl⟩
  split at hwritten
  · next h => exact .inl ⟨'t', hwritten.symm, by decide, by rw [h]; rfl⟩
  split at hwritten
  · next h => exact .inl ⟨'b', hwritten.symm, by decide, by rw [← c.ofNat_toNat, h]; rfl⟩
  split at hwritten
  · next h => exact .inl ⟨'f', hwritten.symm, by decide, by rw [← c.ofNat_toNat, h]; rfl⟩
  split at hwritten
  · next h => exact .inr (.inl ⟨h, hwritten.symm⟩)
  · next hquote hback _ _ _ _ _ h => exact .inr (.inr ⟨hquote, hback, h, hwritten.symm⟩)

theorem readChars_letter {letter c : Char} (hne : letter ≠ 'u') (h : unescape? letter = some c)
    (text : List Char) :
    readChars none ('\\' :: letter :: text) =
      (readChars none text).map fun found => (c :: found.1, found.2) := by
  rw [readChars]
  · exact fun _ _ _ _ _ hu _ => hne hu
  · exact h

theorem readChars_control {c : Char} (hc : c.toNat < 32) (text : List Char) :
    readChars none ('\\' :: 'u' :: '0' :: '0' :: (c.toNat / 16).digitChar ::
        (c.toNat % 16).digitChar :: text) =
      (readChars none text).map fun found => (c :: found.1, found.2) := by
  have hchar : combine? none c.toNat = some (.char c) := by
    rw [combine?, if_neg (by omega), if_neg (by omega), Char.ofNat_toNat]
  rw [readChars, codeUnit?_control hc, Option.bind_some, hchar]

theorem readChars_plain {c : Char} (hquote : c ≠ '"') (hback : c ≠ '\\') (hc : ¬ c.toNat < 32)
    (text : List Char) :
    readChars none (c :: text) =
      (readChars none text).map fun found => (c :: found.1, found.2) := by
  rw [readChars]
  · simp [hc]
  all_goals simp_all

theorem readChars_writeChars (chars rest : List Char) :
    readChars none (writeChars chars rest) = some (chars, rest) := by
  induction chars with
  | nil => rfl
  | cons c chars ih =>
      have hread : readChars none (escapeChar c ++ writeChars chars rest) =
          (readChars none (writeChars chars rest)).map fun found => (c :: found.1, found.2) := by
        rcases escapeChar_cases c with ⟨letter, hc, hne, hletter⟩ | ⟨hcontrol, hc⟩ |
          ⟨hquote, hback, hplain, hc⟩
        · rw [hc]
          exact readChars_letter hne hletter _
        · rw [hc]
          exact readChars_control hcontrol _
        · rw [hc]
          exact readChars_plain hquote hback hplain _
      rw [writeChars, hread, ih]
      rfl

theorem readString?_writeChars (value : String) (rest : List Char) :
    readString? (writeChars value.toList rest) = some (value, rest) := by
  rw [readString?, readChars_writeChars]
  simp

/-! ## Fronts of values -/

theorem ne_of_isDigit {c d : Char} (hc : c.isDigit = true) (hd : d.isDigit = false) : c ≠ d := by
  rintro rfl
  rw [hc] at hd
  cases hd

/-- The first character of a value. -/
def Fronts (c : Char) : Prop :=
  c ∈ ['n', 't', 'f', '"', '[', '\x7b', '-'] ∨ c.isDigit = true

/-- No value begins with a character between values. -/
theorem Fronts.ne {c d : Char} (h : Fronts c)
    (hd : d ∈ [' ', '\t', '\n', '\r', ']', '\x7d', ',', ':']) : c ≠ d := by
  rcases h with hmem | hdigit
  · have hall : (['n', 't', 'f', '"', '[', '\x7b', '-'].all fun c =>
        [' ', '\t', '\n', '\r', ']', '\x7d', ',', ':'].all fun d => c != d) = true := by
      decide
    exact bne_iff_ne.mp (List.all_eq_true.mp (List.all_eq_true.mp hall c hmem) d hd)
  · have hnone : [' ', '\t', '\n', '\r', ']', '\x7d', ',', ':'].any Char.isDigit = false := by
      decide
    rintro rfl
    exact List.any_eq_false.mp hnone c hd hdigit

theorem Fronts.skipBlanks_cons {c : Char} (h : Fronts c) (text : List Char) :
    skipBlanks (c :: text) = c :: text := by
  refine List.dropWhile_cons_of_neg ?_
  simp [h.ne]

theorem front_of_readNumeral? {text rest : List Char} {json : Json}
    (h : readNumeral? text = some (json, rest)) : ∃ c behind, text = c :: behind ∧ Fronts c := by
  obtain ⟨c, hhead, hc⟩ := head_of_readNumeral? h
  obtain ⟨behind, rfl⟩ := List.head?_eq_some_iff.mp hhead
  refine ⟨c, behind, rfl, ?_⟩
  rcases hc with hdigit | rfl
  · exact .inr hdigit
  · exact .inl (by decide)

/-- After an opening bracket, a value means that there are items. -/
theorem readValue_bracket (bound room : Nat) {c : Char} (h : Fronts c) (text : List Char) :
    readValue (bound + 1) (room + 1) ('[' :: c :: text) =
      (readItems bound room (c :: text)).map fun found => (arr found.1, found.2) := by
  have hbracket : skipBlanks ('[' :: c :: text) = '[' :: c :: text := rfl
  rw [readValue]
  simp only [hbracket, h.skipBlanks_cons]
  split
  · next heq => exact absurd (List.cons.inj heq).1 (h.ne (by decide))
  · rfl

/-- A number is none of the other values, and a finite one is not refused. -/
theorem readValue_number (bound room : Nat) {text rest : List Char} {json : Json}
    (h : readNumeral? text = some (json, rest)) (hrange : json.inRange = true) :
    readValue (bound + 1) room text = some (json, rest) := by
  obtain ⟨c, behind, rfl, hfronts⟩ := front_of_readNumeral? h
  have hne (d : Char) (hd : d.isDigit = false) (hd' : d ≠ '-') : c ≠ d := by
    obtain ⟨_, ⟨⟩, hdigit | rfl⟩ := head_of_readNumeral? h
    · exact ne_of_isDigit hdigit hd
    · exact hd'.symm
  unfold readValue
  rw [hfronts.skipBlanks_cons]
  split
  case h_7 => rw [h, Option.filter_some, if_pos hrange]
  all_goals next heq => exact absurd (List.cons.inj heq).1 (hne _ (by decide) (by decide))

/-! ## Values -/

theorem lookup?_eq_none_iff {key : String} {fields : List (String × Json)} :
    lookup? key fields = none ↔ key ∉ fields.map Prod.fst := by
  induction fields with
  | nil => simp [lookup?]
  | cons field fields ih =>
      obtain ⟨name, value⟩ := field
      rw [List.map_cons, List.mem_cons, not_or, ← ih, lookup?]
      cases lookup? key fields with
      | some later => simp
      | none => simp [eq_comm]

mutual

/-- The value is one that text can say: its numbers are finite, and no object repeats a
key. -/
def Sayable : Json → Prop
  | int value => (Number.ofInt value).isFinite = true
  | num a => a.isFinite = true
  | arr items => SayableItems items
  | obj fields => (fields.map Prod.fst).Nodup ∧ SayableFields fields
  | _ => True

/-- All values of a list are. -/
def SayableItems : List Json → Prop
  | [] => True
  | item :: items => item.Sayable ∧ SayableItems items

/-- The values of all fields are. -/
def SayableFields : List (String × Json) → Prop
  | [] => True
  | (_, value) :: fields => value.Sayable ∧ SayableFields fields

end

mutual

/-- How many arrays and objects are open at the deepest place of the value. -/
def nesting : Json → Nat
  | arr items => nestingItems items + 1
  | obj fields => nestingFields fields + 1
  | _ => 0

/-- The deepest nesting among the values of a list. -/
def nestingItems : List Json → Nat
  | [] => 0
  | item :: items => max item.nesting (nestingItems items)

/-- The deepest nesting among the values of all fields. -/
def nestingFields : List (String × Json) → Nat
  | [] => 0
  | (_, value) :: fields => max value.nesting (nestingFields fields)

end

theorem exists_dataChars? {a : Number} (h : a.isFinite = true) :
    ∃ text, a.dataChars? = some text := by
  cases a with
  | nan => cases h
  | signed negative rank =>
      have hne : rank.val ≠ infiniteRank := by
        have hlt : rank.val < infiniteRank := by simpa [Number.isFinite] using h
        omega
      unfold Number.dataChars?
      dsimp only
      rw [if_neg hne]
      split
      · exact ⟨_, rfl⟩
      · exact ⟨_, rfl⟩

theorem dataChars?_ne_nil {a : Number} {text : List Char} (h : a.dataChars? = some text) :
    text ≠ [] := by
  rintro rfl
  obtain ⟨c, hc, -⟩ := head_of_readNumeral? (readNumeral?_dataChars h .nil)
  cases hc

theorem length_lt_writeChars (chars rest : List Char) :
    rest.length < (writeChars chars rest).length := by
  induction chars with
  | nil => exact Nat.lt_succ_self _
  | cons c chars ih =>
      rw [writeChars, List.length_append]
      omega

theorem length_lt_writeInt (value : Int) (rest : List Char) :
    rest.length < (writeInt value rest).length := by
  have hdigits : 0 < (Nat.toDigits 10 value.natAbs).length := Nat.length_toDigits_pos
  unfold writeInt
  split <;> simp only [List.length_cons, List.length_append] <;> omega

mutual

/-- Every value has a text. -/
theorem length_lt_write (rest : List Char) :
    ∀ json : Json, rest.length < (json.write rest).length
  | null | bool true | bool false | arr [] | obj [] => by
      simp only [write, List.length_cons]
      omega
  | int value => by
      rw [write]
      exact length_lt_writeInt value rest
  | num value => by
      rw [write]
      split
      · next digits hdigits =>
          have hpos := List.length_pos_of_ne_nil (dataChars?_ne_nil hdigits)
          rw [List.length_append]
          omega
      · simp only [List.length_cons]
        omega
  | str value => by
      have hchars := length_lt_writeChars value.toList rest
      simp only [write, writeString, List.length_cons]
      omega
  | arr (item :: items) => by
      have hitem := length_lt_write (writeItems items rest) item
      have hitems := length_lt_writeItems rest items
      simp only [write, List.length_cons]
      omega
  | obj ((key, value) :: fields) => by
      have hkey := length_lt_writeChars key.toList (':' :: value.write (writeFields fields rest))
      have hvalue := length_lt_write (writeFields fields rest) value
      have hfields := length_lt_writeFields rest fields
      simp only [write, writeString, List.length_cons] at hkey ⊢
      omega

theorem length_lt_writeItems (rest : List Char) :
    ∀ items : List Json, rest.length < (writeItems items rest).length
  | [] => Nat.lt_succ_self _
  | item :: items => by
      have hitem := length_lt_write (writeItems items rest) item
      have hitems := length_lt_writeItems rest items
      simp only [writeItems, List.length_cons]
      omega

theorem length_lt_writeFields (rest : List Char) :
    ∀ fields : List (String × Json), rest.length < (writeFields fields rest).length
  | [] => Nat.lt_succ_self _
  | (key, value) :: fields => by
      have hkey := length_lt_writeChars key.toList (':' :: value.write (writeFields fields rest))
      have hvalue := length_lt_write (writeFields fields rest) value
      have hfields := length_lt_writeFields rest fields
      simp only [writeFields, writeString, List.length_cons] at hkey ⊢
      omega

end

/-- A value that text can say begins like a value. -/
theorem exists_front {json : Json} (h : json.Sayable) {rest : List Char} (hrest : Closes rest) :
    ∃ c text, json.write rest = c :: text ∧ Fronts c := by
  cases json with
  | null => exact ⟨_, _, rfl, .inl (by decide)⟩
  | bool value => cases value <;> exact ⟨_, _, rfl, .inl (by decide)⟩
  | int value =>
      rw [write]
      exact front_of_readNumeral? (readNumeral?_writeInt value hrest)
  | num value =>
      obtain ⟨text, htext⟩ := exists_dataChars? h
      rw [write, htext]
      exact front_of_readNumeral? (readNumeral?_dataChars htext hrest)
  | str value => exact ⟨_, _, rfl, .inl (by decide)⟩
  | arr items => cases items <;> exact ⟨_, _, rfl, .inl (by decide)⟩
  | obj fields => cases fields <;> exact ⟨_, _, rfl, .inl (by decide)⟩

theorem closes_writeItems (items : List Json) (rest : List Char) :
    Closes (writeItems items rest) := by
  cases items <;> exact .cons (by simp) _

theorem closes_writeFields (fields : List (String × Json)) (rest : List Char) :
    Closes (writeFields fields rest) := by
  cases fields <;> exact .cons (by simp) _

/-- What is read back within a bound on the steps, where there is room for it: values, items
up to the closing bracket and fields up to the closing brace. -/
structure ReadWithin (bound : Nat) : Prop where
  value : ∀ {room : Nat} {json : Json} {rest : List Char}, json.Sayable → json.nesting ≤ room →
    Closes rest → 2 * (json.write rest).length ≤ 2 * rest.length + bound →
      readValue bound room (json.write rest) = some (json, rest)
  items : ∀ {room : Nat} (rest : List Char) {item : Json} {items : List Json},
    SayableItems (item :: items) → nestingItems (item :: items) ≤ room →
    2 * (item.write (writeItems items rest)).length ≤ 2 * rest.length + bound →
      readItems bound room (item.write (writeItems items rest)) = some (item :: items, rest)
  fields : ∀ {room : Nat} (rest : List Char) {key : String} {value : Json}
      {fields : List (String × Json)}, (((key, value) :: fields).map Prod.fst).Nodup →
    SayableFields ((key, value) :: fields) → nestingFields ((key, value) :: fields) ≤ room →
    2 * (writeString key (':' :: value.write (writeFields fields rest))).length ≤
        2 * rest.length + bound →
      readFields bound room (writeString key (':' :: value.write (writeFields fields rest))) =
        some ((key, value) :: fields, rest)

namespace ReadWithin

variable {bound room : Nat}

theorem zero : ReadWithin 0 where
  value {room json rest} _ _ _ hlength := by
    have hlt := length_lt_write rest json
    omega
  items {room} rest {item items} _ _ hlength := by
    have hitem := length_lt_write (writeItems items rest) item
    have hitems := length_lt_writeItems rest items
    omega
  fields {room} rest {key value fields} _ _ _ hlength := by
    have hkey := length_lt_writeChars key.toList (':' :: value.write (writeFields fields rest))
    have hvalue := length_lt_write (writeFields fields rest) value
    have hfields := length_lt_writeFields rest fields
    simp only [writeString, List.length_cons] at hkey hlength
    omega

theorem value_succ (h : ReadWithin bound) {json : Json} {rest : List Char} (hsay : json.Sayable)
    (hnesting : json.nesting ≤ room) (hrest : Closes rest)
    (hlength : 2 * (json.write rest).length ≤ 2 * rest.length + (bound + 1)) :
    readValue (bound + 1) room (json.write rest) = some (json, rest) := by
  cases json with
  | null => rfl
  | bool value => cases value <;> rfl
  | int value =>
      rw [write]
      exact readValue_number bound room (readNumeral?_writeInt value hrest) hsay
  | num value =>
      obtain ⟨text, htext⟩ := exists_dataChars? hsay
      rw [write, htext]
      exact readValue_number bound room (readNumeral?_dataChars htext hrest) hsay
  | str value =>
      change (readString? (writeChars value.toList rest)).map _ = _
      rw [readString?_writeChars]
      rfl
  | arr items =>
      rw [nesting] at hnesting
      obtain ⟨room, rfl⟩ := Nat.exists_eq_add_one_of_ne_zero (by omega : room ≠ 0)
      cases items with
      | nil => rfl
      | cons item items =>
          obtain ⟨c, text, hfront, hc⟩ := exists_front hsay.1 (closes_writeItems items rest)
          simp only [write, List.length_cons] at hlength
          have hitems := h.items rest hsay (Nat.le_of_succ_le_succ hnesting) (by omega)
          rw [hfront] at hitems
          rw [write, hfront, readValue_bracket bound room hc, hitems]
          rfl
  | obj fields =>
      rw [nesting] at hnesting
      obtain ⟨room, rfl⟩ := Nat.exists_eq_add_one_of_ne_zero (by omega : room ≠ 0)
      cases fields with
      | nil => rfl
      | cons field fields =>
          obtain ⟨key, value⟩ := field
          simp only [write, List.length_cons] at hlength
          have hfields := h.fields rest hsay.1 hsay.2 (Nat.le_of_succ_le_succ hnesting) (by omega)
          change (readFields bound room
            (writeString key (':' :: value.write (writeFields fields rest)))).map _ = _
          rw [hfields]
          rfl

theorem items_succ (h : ReadWithin bound) {item : Json} {items : List Json} {rest : List Char}
    (hsay : SayableItems (item :: items)) (hnesting : nestingItems (item :: items) ≤ room)
    (hlength : 2 * (item.write (writeItems items rest)).length ≤ 2 * rest.length + (bound + 1)) :
    readItems (bound + 1) room (item.write (writeItems items rest)) =
      some (item :: items, rest) := by
  obtain ⟨hfirst, hothers⟩ := max_le_iff.mp hnesting
  have hshort := length_lt_writeItems rest items
  have hitem := h.value hsay.1 hfirst (closes_writeItems items rest) (by omega)
  rw [readItems, hitem]
  cases items with
  | nil => rfl
  | cons next items =>
      have hmore := length_lt_write (writeItems (next :: items) rest) item
      simp only [writeItems, List.length_cons] at hmore hlength
      have hnext := h.items rest hsay.2 hothers (by omega)
      change (readItems bound room (next.write (writeItems items rest))).map _ = _
      rw [hnext]
      rfl

/-- A field whose key does not come again is kept. -/
theorem addField_eq {key : String} {value : Json} {fields : List (String × Json)}
    (h : key ∉ fields.map Prod.fst) : addField key value fields = (key, value) :: fields := by
  rw [addField, lookup?_eq_none_iff.mpr h]
  rfl

/-- A field before a closing brace is the last one. -/
theorem readFields_last {key : String} {value : Json} {text behind rest : List Char}
    (hvalue : readValue bound room text = some (value, behind))
    (hclose : skipBlanks behind = '\x7d' :: rest) :
    readFields (bound + 1) room (writeString key (':' :: text)) = some ([(key, value)], rest) := by
  have hquote : skipBlanks ('"' :: writeChars key.toList (':' :: text)) =
    '"' :: writeChars key.toList (':' :: text) := rfl
  have hcolon : skipBlanks (':' :: text) = ':' :: text := rfl
  rw [writeString, readFields]
  simp only [hquote, readString?_writeChars, hcolon, hvalue, hclose]

/-- Behind a comma there are more fields. -/
theorem readFields_next {key : String} {value : Json} {text behind rest : List Char}
    (hvalue : readValue bound room text = some (value, behind))
    (hcomma : skipBlanks behind = ',' :: rest) :
    readFields (bound + 1) room (writeString key (':' :: text)) =
      (readFields bound room rest).map fun found => (addField key value found.1, found.2) := by
  have hquote : skipBlanks ('"' :: writeChars key.toList (':' :: text)) =
    '"' :: writeChars key.toList (':' :: text) := rfl
  have hcolon : skipBlanks (':' :: text) = ':' :: text := rfl
  rw [writeString, readFields]
  simp only [hquote, readString?_writeChars, hcolon, hvalue, hcomma]

theorem fields_succ (h : ReadWithin bound) {key : String} {value : Json}
    {fields : List (String × Json)} {rest : List Char}
    (hdistinct : (((key, value) :: fields).map Prod.fst).Nodup)
    (hsay : SayableFields ((key, value) :: fields))
    (hnesting : nestingFields ((key, value) :: fields) ≤ room)
    (hlength : 2 * (writeString key (':' :: value.write (writeFields fields rest))).length ≤
      2 * rest.length + (bound + 1)) :
    readFields (bound + 1) room (writeString key (':' :: value.write (writeFields fields rest))) =
      some ((key, value) :: fields, rest) := by
  obtain ⟨hfirst, hdeep⟩ := max_le_iff.mp hnesting
  have hkey := length_lt_writeChars key.toList (':' :: value.write (writeFields fields rest))
  have hshort := length_lt_writeFields rest fields
  simp only [writeString, List.length_cons] at hkey hlength
  have hvalue := h.value hsay.1 hfirst (closes_writeFields fields rest) (by omega)
  cases fields with
  | nil => exact readFields_last hvalue rfl
  | cons field fields =>
      obtain ⟨next, other⟩ := field
      have hmore := length_lt_write (writeFields ((next, other) :: fields) rest) value
      simp only [writeFields, List.length_cons] at hmore hkey hlength
      obtain ⟨hkeyNew, hothers⟩ := List.nodup_cons.mp hdistinct
      have hnext := h.fields rest hothers hsay.2 hdeep (by omega)
      have hcomma : skipBlanks (writeFields ((next, other) :: fields) rest) =
        ',' :: writeString next (':' :: other.write (writeFields fields rest)) := rfl
      rw [readFields_next hvalue hcomma, hnext]
      exact congrArg (fun fields => some (fields, rest)) (addField_eq hkeyNew)

/-- Every bound on the steps is enough for texts that are as short as it says. -/
theorem all (bound : Nat) : ReadWithin bound := by
  induction bound with
  | zero => exact zero
  | succ bound ih =>
      exact
        { value := fun hsay hnesting hrest hlength => ih.value_succ hsay hnesting hrest hlength
          items := fun _ _ _ hsay hnesting hlength => ih.items_succ hsay hnesting hlength
          fields := fun _ _ _ _ hdistinct hsay hnesting hlength =>
            ih.fields_succ hdistinct hsay hnesting hlength }

end ReadWithin

/-- **JSON text is read back.**  The text of a value that text can say is read as the
value, unless it is nested too deeply. -/
theorem ofText?_text {json : Json} (h : json.Sayable) (hnesting : json.nesting ≤ maxOpen) :
    ofText? json.text.toList = some json := by
  have hread := (ReadWithin.all (2 * (json.write []).length + 2)).value h hnesting Closes.nil
    (by simp only [List.length_nil]; omega)
  rw [text, String.toList_ofList, ofText?, hread]
  rfl

end Json
end DecisionTuples
