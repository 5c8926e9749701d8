import DecisionTuples.Proofs.Json.Text

/-!
# What JSON text can say

Every value that is read from a text has finite numbers, no key twice in one object, and at
most `maxOpen` arrays and objects open at once.  Every such value is read from some text,
the one that is written for it.  So these are just the values that text can say
(`Json.exists_ofText?_iff`), and a number that is nearest to no finite one, or one array
more, is refused.

The reader is followed with the same induction on the bound of its steps as for reading
back what was written.
-/

namespace DecisionTuples
namespace Json

variable {bound room : Nat} {text rest : List Char} {json : Json}

/-- What a numeral stands for is an integer or another number, and can be said if it is
finite. -/
theorem sayable_of_readNumeral? (h : readNumeral? text = some (json, rest))
    (hrange : json.inRange = true) : json.Sayable ∧ json.nesting ≤ room := by
  have hmagnitude {negative : Bool} {text : List Char}
      (h : readMagnitude? negative text = some (json, rest)) :
      (∃ value, json = int value) ∨ ∃ value, json = num value := by
    obtain ⟨⟨whole, _⟩, -, h⟩ := Option.bind_eq_some_iff.mp h
    obtain ⟨⟨fraction, _⟩, -, h⟩ := Option.bind_eq_some_iff.mp h
    obtain ⟨⟨exponent, _⟩, -, h⟩ := Option.bind_eq_some_iff.mp h
    cases h
    unfold ofParts
    split
    · dsimp only
      split
      · split
        · exact .inr ⟨_, rfl⟩
        · exact .inl ⟨_, rfl⟩
      · exact .inl ⟨_, rfl⟩
    · exact .inr ⟨_, rfl⟩
  have hnumber : (∃ value, json = int value) ∨ ∃ value, json = num value := by
    unfold readNumeral? at h
    split at h
    · exact hmagnitude h
    · exact hmagnitude h
  obtain ⟨value, rfl⟩ | ⟨value, rfl⟩ := hnumber
  · exact ⟨hrange, Nat.zero_le room⟩
  · exact ⟨hrange, Nat.zero_le room⟩

/-- A field is added to others without repeating a key. -/
theorem sayable_addField {key : String} {value : Json} {fields : List (String × Json)}
    (hvalue : value.Sayable ∧ value.nesting ≤ room)
    (hfields : (fields.map Prod.fst).Nodup ∧ SayableFields fields ∧ nestingFields fields ≤ room) :
    ((addField key value fields).map Prod.fst).Nodup ∧ SayableFields (addField key value fields) ∧
      nestingFields (addField key value fields) ≤ room := by
  by_cases hkey : key ∈ fields.map Prod.fst
  · have hsome : (lookup? key fields).isSome = true :=
      Option.isSome_iff_ne_none.mpr fun hnone => lookup?_eq_none_iff.mp hnone hkey
    rw [addField, if_pos hsome]
    exact hfields
  · rw [ReadWithin.addField_eq hkey, List.map_cons]
    obtain ⟨hdistinct, hsay, hnesting⟩ := hfields
    exact ⟨List.nodup_cons.mpr ⟨hkey, hdistinct⟩, ⟨hvalue.1, hsay⟩, max_le hvalue.2 hnesting⟩

/-- Whatever is read within a bound on the steps can be said in the room there is. -/
structure ReadsSayable (bound : Nat) : Prop where
  value : ∀ {room : Nat} {text rest : List Char} {json : Json},
    readValue bound room text = some (json, rest) → json.Sayable ∧ json.nesting ≤ room
  items : ∀ {room : Nat} {text rest : List Char} {items : List Json},
    readItems bound room text = some (items, rest) →
      SayableItems items ∧ nestingItems items ≤ room
  fields : ∀ {room : Nat} {text rest : List Char} {fields : List (String × Json)},
    readFields bound room text = some (fields, rest) →
      (fields.map Prod.fst).Nodup ∧ SayableFields fields ∧ nestingFields fields ≤ room

namespace ReadsSayable

theorem value_succ (h : ReadsSayable bound)
    (hread : readValue (bound + 1) room text = some (json, rest)) :
    json.Sayable ∧ json.nesting ≤ room := by
  unfold readValue at hread
  split at hread
  case h_4 =>
    obtain ⟨_, -, heq⟩ := Option.map_eq_some_iff.mp hread
    cases heq
    exact ⟨trivial, Nat.zero_le room⟩
  case h_5 =>
    cases room with
    | zero => cases hread
    | succ room =>
        dsimp only at hread
        split at hread
        · cases hread
          exact ⟨trivial, Nat.succ_le_succ (Nat.zero_le room)⟩
        · obtain ⟨⟨items, _⟩, hitems, heq⟩ := Option.map_eq_some_iff.mp hread
          cases heq
          obtain ⟨hsay, hnesting⟩ := h.items hitems
          exact ⟨hsay, Nat.succ_le_succ hnesting⟩
  case h_6 =>
    cases room with
    | zero => cases hread
    | succ room =>
        dsimp only at hread
        split at hread
        · cases hread
          exact ⟨⟨List.nodup_nil, trivial⟩, Nat.succ_le_succ (Nat.zero_le room)⟩
        · obtain ⟨⟨fields, _⟩, hfields, heq⟩ := Option.map_eq_some_iff.mp hread
          cases heq
          obtain ⟨hdistinct, hsay, hnesting⟩ := h.fields hfields
          exact ⟨⟨hdistinct, hsay⟩, Nat.succ_le_succ hnesting⟩
  case h_7 =>
    obtain ⟨hfound, hrange⟩ := Option.filter_eq_some_iff.mp hread
    exact sayable_of_readNumeral? hfound hrange
  all_goals
    cases hread
    exact ⟨trivial, Nat.zero_le room⟩

theorem items_succ (h : ReadsSayable bound) {items : List Json}
    (hread : readItems (bound + 1) room text = some (items, rest)) :
    SayableItems items ∧ nestingItems items ≤ room := by
  rw [readItems] at hread
  split at hread
  · cases hread
  · next item behind hitem =>
      obtain ⟨hsay, hnesting⟩ := h.value hitem
      split at hread
      · cases hread
        exact ⟨⟨hsay, trivial⟩, max_le hnesting (Nat.zero_le room)⟩
      · obtain ⟨⟨others, _⟩, hothers, heq⟩ := Option.map_eq_some_iff.mp hread
        cases heq
        obtain ⟨hsayOthers, hdeep⟩ := h.items hothers
        exact ⟨⟨hsay, hsayOthers⟩, max_le hnesting hdeep⟩
      · cases hread

theorem fields_succ (h : ReadsSayable bound) {fields : List (String × Json)}
    (hread : readFields (bound + 1) room text = some (fields, rest)) :
    (fields.map Prod.fst).Nodup ∧ SayableFields fields ∧ nestingFields fields ≤ room := by
  rw [readFields] at hread
  split at hread
  · split at hread
    · cases hread
    · split at hread
      · split at hread
        · cases hread
        · next value behind hfound =>
            have hvalue := h.value hfound
            split at hread
            · cases hread
              exact ⟨List.pairwise_singleton _ _, ⟨hvalue.1, trivial⟩,
                max_le hvalue.2 (Nat.zero_le room)⟩
            · obtain ⟨⟨others, _⟩, hothers, heq⟩ := Option.map_eq_some_iff.mp hread
              cases heq
              exact sayable_addField hvalue (h.fields hothers)
            · cases hread
      · cases hread
  · cases hread

theorem all (bound : Nat) : ReadsSayable bound := by
  induction bound with
  | zero => exact ⟨nofun, nofun, nofun⟩
  | succ bound ih => exact ⟨ih.value_succ, ih.items_succ, ih.fields_succ⟩

end ReadsSayable

/-- **What JSON text can say.**  A value is read from some text exactly if its numbers are
finite, no object in it repeats a key, and no more than `maxOpen` arrays and objects are
open at its deepest place. -/
theorem exists_ofText?_iff :
    (∃ text, ofText? text = some json) ↔ json.Sayable ∧ json.nesting ≤ maxOpen := by
  constructor
  · rintro ⟨text, h⟩
    obtain ⟨⟨found, rest⟩, hread, h⟩ := Option.bind_eq_some_iff.mp h
    dsimp only at h
    split at h
    · cases h
      exact (ReadsSayable.all _).value hread
    · cases h
  · rintro ⟨hsay, hnesting⟩
    exact ⟨_, ofText?_text hsay hnesting⟩

-- Past every finite number, and one array more than may be open.
example : (ofText? "-1e400".toList).isNone = true := by decide +kernel

example : (ofText? (List.replicate 128 '[' ++ List.replicate 128 ']')).isNone = true := by
  decide +kernel

end Json
end DecisionTuples
