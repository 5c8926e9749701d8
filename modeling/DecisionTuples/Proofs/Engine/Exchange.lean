import DecisionTuples.Proofs.Codec.Tuple
import DecisionTuples.Proofs.Engine.Paths
import DecisionTuples.Proofs.Json.Text

/-!
# Reading what the engine has written

The JSON text of the tuples of a text is always JSON text, and it is read as the JSON value
that it was written for.  From that value the tuples are got back exactly if the declared
precisions are finite (`Engine.compileToJson_readable_iff`): the infinite ends of
intervals have words of their own, but a precision has none.  A precision is given by
digits, and digits can be too large for a number; `Engine.infinite_precision_lost` is
about such a text, the feature `[ var x: num(1…) if (x < 1) ]` with 309 zeros behind the one.
-/

namespace DecisionTuples

/-! ## The value of a tuple set can be said in text -/

namespace Json

theorem sayableItems_map {α : Type} {encode : α → Json} (h : ∀ x, (encode x).Sayable)
    (xs : List α) : SayableItems (xs.map encode) := by
  induction xs with
  | nil => trivial
  | cons x xs ih => exact ⟨h x, ih⟩

end Json

/-- A number that is not finite is not written as a number. -/
theorem Number.sayable_encode (a : Number) : a.encode.Sayable := by
  unfold encode
  split
  · next hfinite => exact hfinite
  · trivial

theorem Number.sayable_encodeBound (a : Number) : a.encodeBound.Sayable := by
  unfold encodeBound
  split
  · next hfinite => exact hfinite
  · split
    · trivial
    · split <;> trivial

theorem Segment.sayable_encode (segment : Segment) : segment.encode.Sayable := by
  simp [encode, Openness.encode, Interval.encode, Json.Sayable, Json.SayableFields,
    Number.sayable_encodeBound]

theorem Region.sayable_encode (region : Region) : region.encode.Sayable :=
  Json.sayableItems_map Segment.sayable_encode region.segments

theorem Variable.sayable_encode (declared : Variable) : declared.encode.Sayable := by
  obtain ⟨name, type⟩ := declared
  cases type <;>
    simp [encode, ValueType.encode, Json.Sayable, Json.SayableFields, Number.sayable_encode]

theorem Slot.sayable_encode (slot : Slot) : slot.encode.Sayable := by
  cases slot <;>
    simp [encode, encodeParts, kindName, Relation.encode, Json.Sayable, Json.SayableFields,
      Region.sayable_encode, Number.sayable_encode]

theorem Tuple.sayable_encode (tuple : Tuple) : tuple.encode.Sayable :=
  Json.sayableItems_map Slot.sayable_encode tuple

theorem TupleSet.sayable_encode (set : TupleSet) : set.encode.Sayable := by
  simp [encode, Json.Sayable, Json.SayableFields,
    Json.sayableItems_map Variable.sayable_encode, Json.sayableItems_map Tuple.sayable_encode]

/-! ## It is not nested deeply -/

namespace Json

theorem nestingItems_map_le {α : Type} {encode : α → Json} {n : Nat}
    (h : ∀ x, (encode x).nesting ≤ n) (xs : List α) : nestingItems (xs.map encode) ≤ n := by
  induction xs with
  | nil => exact Nat.zero_le n
  | cons x xs ih => exact Nat.max_le.mpr ⟨h x, ih⟩

end Json

theorem Number.nesting_encode (a : Number) : a.encode.nesting = 0 := by
  unfold encode
  split <;> rfl

theorem Number.nesting_encodeBound (a : Number) : a.encodeBound.nesting = 0 := by
  unfold encodeBound
  split
  · rfl
  · split
    · rfl
    · split <;> rfl

theorem Segment.nesting_encode (segment : Segment) : segment.encode.nesting = 2 := by
  simp [encode, Openness.encode, Interval.encode, Json.nesting, Json.nestingFields,
    Number.nesting_encodeBound]

theorem Region.nesting_encode_le (region : Region) : region.encode.nesting ≤ 3 :=
  Nat.succ_le_succ (Json.nestingItems_map_le (fun s => s.nesting_encode.le) region.segments)

theorem Variable.nesting_encode (declared : Variable) : declared.encode.nesting = 2 := by
  obtain ⟨name, type⟩ := declared
  cases type <;>
    simp [encode, ValueType.encode, Json.nesting, Json.nestingFields, Number.nesting_encode]

theorem Slot.nesting_encode_le (slot : Slot) : slot.encode.nesting ≤ 4 := by
  cases slot with
  | missing => simp [encode, encodeParts, Json.nesting, Json.nestingFields]
  | truth relation value =>
      simp [encode, encodeParts, Relation.encode, Json.nesting, Json.nestingFields]
  | range relation region precision =>
      have hregion := region.nesting_encode_le
      simp only [encode, encodeParts, Relation.encode, Json.nesting, Json.nestingFields,
        Number.nesting_encode]
      omega

theorem Tuple.nesting_encode_le (tuple : Tuple) : tuple.encode.nesting ≤ 5 :=
  Nat.succ_le_succ (Json.nestingItems_map_le Slot.nesting_encode_le tuple)

/-- Whatever a tuple set holds, only its own form is nested. -/
theorem TupleSet.nesting_encode_le (set : TupleSet) : set.encode.nesting ≤ 7 := by
  have hvariables :=
    Json.nestingItems_map_le (fun declared : Variable => declared.nesting_encode.le)
      set.declarations
  have htuples := Json.nestingItems_map_le Tuple.nesting_encode_le set.tuples
  simp only [encode, Json.nesting, Json.nestingFields]
  omega

/-- So the text of a tuple set is always read. -/
theorem TupleSet.ofText?_encode (set : TupleSet) :
    Json.ofText? set.encode.text.toList = some set.encode := by
  have hnesting : set.encode.nesting ≤ Json.maxOpen :=
    set.nesting_encode_le.trans (by decide)
  exact Json.ofText?_text set.sayable_encode hnesting

/-! ## Precisions -/

/-- A slot that can be said of a variable has no precision but the declared one. -/
theorem Slot.Regular.plainNumbers {slot : Slot} {declared : Variable}
    (h : slot.Regular declared.type) : ∀ a ∈ slot.plainNumbers, a ∈ declared.plainNumbers := by
  cases slot with
  | range relation region precision =>
      intro a ha
      obtain rfl := List.mem_singleton.mp ha
      exact Option.mem_toList.mpr h.1
  | _ => nofun

/-- The precisions of the slots of a path are declared ones. -/
theorem Path.plainNumbers_of_tuple {path : Path} {declarations : List Variable} {tuple : Tuple}
    (hregular : ∀ requirement ∈ path, requirement.Regular)
    (h : path.tuple declarations = .ok (some tuple)) :
    ∀ a ∈ tuple.flatMap Slot.plainNumbers, a ∈ declarations.flatMap Variable.plainNumbers := by
  intro a ha
  obtain ⟨slot, hslot, ha⟩ := List.mem_flatMap.mp ha
  obtain ⟨declared, hdeclared, hfound⟩ := exists_mem_of_forall₂ (forall₂_slotOf h).flip hslot
  have hslotRegular := regular_of_slotOf hregular hfound
  exact List.mem_flatMap.mpr ⟨declared, hdeclared, hslotRegular.plainNumbers a ha⟩

/-- So the tuples add nothing to what the declarations ask for. -/
theorem PathTable.allFinite_iff {table : PathTable} {set : TupleSet}
    (hregular : ∀ path ∈ table.paths, ∀ requirement ∈ path, requirement.Regular)
    (h : table.tupleSet = .ok set) :
    AllFinite set.plainNumbers ↔ AllFinite (set.declarations.flatMap Variable.plainNumbers) := by
  obtain ⟨outcomes, houtcomes, h⟩ := bind_eq_ok h
  cases h
  rw [TupleSet.plainNumbers, allFinite_append, and_iff_left_iff_imp]
  intro hdeclared a ha
  obtain ⟨tuple, htuple, ha⟩ := List.mem_flatMap.mp ha
  obtain ⟨outcome, houtcome, rfl⟩ := List.mem_filterMap.mp htuple
  obtain ⟨path, hpath, hfound⟩ :=
    exists_mem_of_forall₂ (mapM_eq_ok_iff.mp houtcomes).flip houtcome
  exact hdeclared a (Path.plainNumbers_of_tuple (hregular path hpath) hfound a ha)

namespace Engine

variable {engine : Engine} {source text : String} {set : TupleSet}

theorem compileToJson_eq (h : engine.compile source = .ok set) :
    engine.compileToJson source = .ok set.encode.text := by
  rw [compileToJson, h]
  rfl

/-- Only the declared precisions decide whether compiled tuples are got back. -/
theorem decode?_of_compile (h : engine.compile source = .ok set) :
    (Json.ofText? set.encode.text.toList).bind TupleSet.decode? =
      if AllFinite (set.declarations.flatMap Variable.plainNumbers) then some set else none := by
  obtain ⟨feature, table, hfeature, htable, htuples⟩ := compile_stages h
  obtain ⟨hregular, -⟩ := regular_of_parse hfeature htable
  rw [set.ofText?_encode, Option.bind_some, TupleSet.decode?_encode]
  simp only [PathTable.allFinite_iff hregular htuples]

/-- **When the emitted text is readable.**  The text is read as the JSON value of the
compiled tuples.  Decoding it gives the tuples again if every declared precision is
finite, and gives nothing otherwise. -/
theorem compileToJson_readable_iff (h : engine.compileToJson source = .ok text) :
    ∃ set, engine.compile source = .ok set ∧ Json.ofText? text.toList = some set.encode ∧
      ((Json.ofText? text.toList).bind TupleSet.decode? = some set ↔
        AllFinite (set.declarations.flatMap Variable.plainNumbers)) ∧
      ((Json.ofText? text.toList).bind TupleSet.decode? = none ↔
        ¬ AllFinite (set.declarations.flatMap Variable.plainNumbers)) := by
  obtain ⟨set, hset, htext⟩ := bind_eq_ok h
  cases htext
  refine ⟨set, hset, set.ofText?_encode, ?_⟩
  rw [decode?_of_compile hset]
  exact read_iff set

/-- Infinite bounds, and a precision of two places. -/
theorem compileToJson_readable_iff_unbounded :
    ∃ text set, (Engine.mk .default).compileToJson
        "[ var x: num if (x > -3.5) if (x in [-Inf, 7)) ]" = .ok text ∧ set.tuples.length = 2 ∧
      (Json.ofText? text.toList).bind TupleSet.decode? = some set := by
  have hcompiles : ((Engine.mk .default).compile
      "[ var x: num if (x > -3.5) if (x in [-Inf, 7)) ]").toOption.any
        (fun set => AllFinite (set.declarations.flatMap Variable.plainNumbers) ∧
          set.tuples.length = 2) = true := by
    decide +kernel
  obtain ⟨set, hset, hfound⟩ := exists_ok_of_any hcompiles
  obtain ⟨hfinite, hlength⟩ := of_decide_eq_true hfound
  obtain ⟨set', hset', -, hread, -⟩ := compileToJson_readable_iff (compileToJson_eq hset)
  obtain rfl : set = set' := Except.ok.inj (hset.symm.trans hset')
  exact ⟨_, set, compileToJson_eq hset, hlength, hread.mpr hfinite⟩

/-- The feature `[ var x: num(1…) if (x < 1) ]` with 309 zeros behind the one: its precision is
past every number. -/
theorem infinite_precision_lost :
    ∃ text, (Engine.mk .default).compileToJson (.ofList ("[ var x: num(1".toList ++
        (List.replicate 309 '0' ++ ") if (x < 1) ]".toList))) = .ok text ∧
      (Json.ofText? text.toList).bind TupleSet.decode? = none := by
  have hcompiles : ((Engine.mk .default).compile (.ofList ("[ var x: num(1".toList ++
      (List.replicate 309 '0' ++ ") if (x < 1) ]".toList)))).toOption.any
        (fun set => ¬ AllFinite (set.declarations.flatMap Variable.plainNumbers)) = true := by
    rw [compile, parse, String.toList_ofList]
    decide +kernel
  obtain ⟨set, hset, hlost⟩ := exists_ok_of_any hcompiles
  refine ⟨_, compileToJson_eq hset, ?_⟩
  rw [decode?_of_compile hset, if_neg (of_decide_eq_true hlost)]

end Engine
end DecisionTuples
