import DecisionTuples.Codec.Path
import DecisionTuples.Codec.Tuple
import DecisionTuples.Proofs.Codec.Feature

/-!
# Paths and tuples are read back

The plain numbers of a path table are the precisions of its variables; a tuple set has
those of its slots besides.  Relations, names, truth values and regions of any kind are
read back always, whether or not a relation goes with the value beside it.

`decode_undoes_encode` puts the three kinds of document together.
-/

namespace DecisionTuples

/-! ## Path tables -/

@[simp] theorem Requirement.decode?_encode (requirement : Requirement) :
    decode? requirement.encode = some requirement := by
  cases requirement with
  | truth name value relation =>
      simp [decode?, encode, decodeTruth?, Json.tagged?, Json.part?, Json.lookup?, Json.asString?,
        Json.asBool?]
  | membership name relation region =>
      simp [decode?, encode, decodeMembership?, Json.tagged?, Json.part?, Json.lookup?,
        Json.asString?]

theorem Path.decode?_encode (path : Path) : decode? path.encode = some path :=
  Json.asList?_map Requirement.decode?_encode path

namespace PathTable

/-- The precisions of the variables. -/
def plainNumbers (table : PathTable) : List Number :=
  table.declarations.flatMap Variable.plainNumbers

theorem decode?_encode (table : PathTable) :
    decode? table.encode = if AllFinite table.plainNumbers then some table else none := by
  simp [decode?, encode, Json.part?, Json.lookup?, Variable.asList?_map_encode,
    Json.asList?_map Path.decode?_encode]
  rfl

end PathTable

/-! ## Tuple sets -/

namespace Slot

/-- The precision of a range. -/
def plainNumbers : Slot → List Number
  | range _ _ precision => [precision]
  | _ => []

theorem decode?_encode (slot : Slot) :
    decode? slot.encode = if AllFinite slot.plainNumbers then some slot else none := by
  cases slot with
  | missing => rfl
  | truth relation value =>
      simp [decode?, encode, encodeParts, kindName, decodeTruth?, plainNumbers, Json.tagged?,
        Json.part?, Json.lookup?, Json.asBool?]
  | range relation region precision =>
      simp [decode?, encode, encodeParts, kindName, decodeRange?, plainNumbers, Json.tagged?,
        Json.part?, Json.lookup?, Number.asNumber?_encode]

end Slot

theorem Tuple.decode?_encode (tuple : Tuple) :
    decode? tuple.encode =
      if AllFinite (tuple.flatMap Slot.plainNumbers) then some tuple else none :=
  Json.asList?_map_plain fun slot _ => slot.decode?_encode

namespace TupleSet

/-- The precisions of the variables and of all slots. -/
def plainNumbers (set : TupleSet) : List Number :=
  set.declarations.flatMap Variable.plainNumbers ++
    set.tuples.flatMap fun tuple => tuple.flatMap Slot.plainNumbers

theorem decode?_encode (set : TupleSet) :
    decode? set.encode = if AllFinite set.plainNumbers then some set else none := by
  obtain ⟨declarations, tuples⟩ := set
  have htuples : Json.asList? Tuple.decode? (.arr (tuples.map Tuple.encode)) =
      if AllFinite (tuples.flatMap fun tuple => tuple.flatMap Slot.plainNumbers) then some tuples
      else none :=
    Json.asList?_map_plain fun tuple _ => tuple.decode?_encode
  simp [decode?, encode, plainNumbers, Json.part?, Json.lookup?,
    Variable.asList?_map_encode, htuples, ite_and]

end TupleSet

/-! ## All documents -/

/-- A range that is written with an array of no segments is not read, in either form that
a tagged value can have. -/
theorem Slot.decode?_noSegments {json record : Json}
    (hkind : json.tagged? "kind" = some ("interval", record))
    (hregion : record.part? ["expression", "interval", "precision"] "interval" = some (.arr [])) :
    decode? json = none := by
  have hempty : Region.decode? (.arr []) = none := rfl
  simp [decode?, decodeRange?, hkind, hregion, hempty]

theorem Requirement.decode?_noSegments {json record : Json}
    (htype : json.tagged? "type" = some ("interval", record))
    (hregion : record.part? ["var_name", "expression", "interval"] "interval" = some (.arr [])) :
    decode? json = none := by
  have hempty : Region.decode? (.arr []) = none := rfl
  simp [decode?, decodeMembership?, htype, hregion, hempty]

/-- **Decoding undoes encoding.**  A feature, a path table or a tuple set whose plain numbers
are finite is read back from its JSON value, whatever the bounds of its intervals are.
A JSON value is read as a region exactly if it is an array of segments that is not
empty, and a value in which a region is written as the empty array is not read.  These are
values and not texts: a feature may be nested deeper than any JSON text that is read. -/
theorem decode_undoes_encode :
    (∀ feature : Feature, AllFinite feature.plainNumbers →
        Feature.decode? feature.encode = some feature) ∧
      (∀ table : PathTable, AllFinite table.plainNumbers →
        PathTable.decode? table.encode = some table) ∧
      (∀ set : TupleSet, AllFinite set.plainNumbers →
        TupleSet.decode? set.encode = some set) ∧
      (∀ json region, Region.decode? json = some region ↔ ∃ items, json = .arr items ∧
        items ≠ [] ∧ items.mapM Segment.decode? = some region.segments) ∧
      (∀ json record, Json.tagged? "kind" json = some ("interval", record) →
        record.part? ["expression", "interval", "precision"] "interval" = some (.arr []) →
          Slot.decode? json = none) ∧
      ∀ json record, Json.tagged? "type" json = some ("interval", record) →
        record.part? ["var_name", "expression", "interval"] "interval" = some (.arr []) →
          Requirement.decode? json = none := by
  refine ⟨fun feature h => ?_, fun table h => ?_, fun set h => ?_, ?_, ?_, ?_⟩
  · rw [Feature.decode?_encode, if_pos h]
  · rw [PathTable.decode?_encode, if_pos h]
  · rw [TupleSet.decode?_encode, if_pos h]
  · exact fun json region => Region.decode?_eq_some_iff
  · exact fun json record => Slot.decode?_noSegments
  · exact fun json record => Requirement.decode?_noSegments

/-- Negative zero as a constant, and bounds that are infinite or no number. -/
theorem decode_undoes_encode_bounds :
    let interval : Interval := ⟨.negativeInfinity, .nan⟩
    let feature : Feature := ⟨[⟨"x", .num⟩], [⟨[.comparison "x" .left (.ofRank true 0) .less],
      some [.leaf [.membership "x" interval ⟨true, false⟩]], [⟨[], none⟩], some []⟩],
      [.empty]⟩
    let table : PathTable :=
      ⟨[⟨"x", .num⟩], [[.membership "x" .within (.single interval ⟨true, false⟩)], []]⟩
    let set : TupleSet := ⟨[⟨"x", .num⟩],
      [[.range .within (.single interval ⟨true, false⟩) (.ofRank true 0)], [.missing]]⟩
    Feature.decode? feature.encode = some feature ∧ PathTable.decode? table.encode = some table ∧
      TupleSet.decode? set.encode = some set ∧ Region.decode? (.arr []) = none ∧
      Slot.decode? (.arr [.str "interval", .str "Interval", .arr [], .int 1]) = none ∧
      Requirement.decode? (.obj [("type", .str "interval"), ("interval", .arr [])]) = none := by
  obtain ⟨hfeature, htable, hset, hregion, hslot, hrequirement⟩ := decode_undoes_encode
  refine ⟨hfeature _ (by decide +kernel), htable _ (by decide +kernel), hset _ (by decide +kernel),
    ?_, ?_, ?_⟩
  · refine Option.eq_none_iff_forall_ne_some.mpr fun region h => ?_
    obtain ⟨items, hitems, hne, -⟩ := (hregion _ region).mp h
    cases hitems
    exact hne rfl
  · exact hslot _ (.arr [.str "Interval", .arr [], .int 1]) rfl (by rfl)
  · exact hrequirement _ (.obj [("type", .str "interval"), ("interval", .arr [])]) rfl rfl

end DecisionTuples
