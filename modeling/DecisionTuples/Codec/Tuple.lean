import DecisionTuples.Codec.Variable
import DecisionTuples.Tuple.Basic

/-!
# Slots, tuples and tuple sets in JSON

The form in which tuples are handed on.  Reading does not compare the relation
of a slot with its value; what is written is kept.
-/

namespace DecisionTuples
namespace Slot

/-- The parts of a slot beside its kind. -/
def encodeParts : Slot → List (String × Json)
  | missing => []
  | truth relation value => [("expression", relation.encode), ("value", .bool value)]
  | range relation region precision =>
    [("expression", relation.encode), ("interval", region.encode),
      ("precision", precision.encode)]

/-- The name of the kind of a slot. -/
def kindName : Slot → String
  | missing => "missing"
  | truth _ _ => "bool"
  | range _ _ _ => "interval"

def encode (slot : Slot) : Json := .obj (("kind", .str slot.kindName) :: slot.encodeParts)

def decodeTruth? (record : Json) : Option Slot := do
  let part := record.part? ["expression", "value"]
  let relation ← (part "expression").bind Relation.decodeInner?
  let value ← (part "value").bind Json.asBool?
  return truth relation value

def decodeRange? (record : Json) : Option Slot := do
  let part := record.part? ["expression", "interval", "precision"]
  let relation ← (part "expression").bind Relation.decodeInner?
  let region ← (part "interval").bind Region.decode?
  let precision ← (part "precision").bind Json.asNumber?
  return range relation region precision

def decode? (json : Json) : Option Slot :=
  match json.tagged? "kind" with
  | some ("missing", record) => if record.hasNoParts then some missing else none
  | some ("bool", record) => decodeTruth? record
  | some ("interval", record) => decodeRange? record
  | _ => none

end Slot

namespace Tuple

def encode (tuple : Tuple) : Json := .arr (tuple.map Slot.encode)

def decode? (json : Json) : Option Tuple := json.asList? Slot.decode?

end Tuple

namespace TupleSet

def encode (set : TupleSet) : Json :=
  .obj [("variables", .arr (set.declarations.map Variable.encode)),
    ("tuples", .arr (set.tuples.map Tuple.encode))]

def decode? (json : Json) : Option TupleSet := do
  let part := json.part? ["variables", "tuples"]
  let declarations ← (part "variables").bind (Json.asList? Variable.decode?)
  let tuples ← (part "tuples").bind (Json.asList? Tuple.decode?)
  return ⟨declarations, tuples⟩

end TupleSet
end DecisionTuples
