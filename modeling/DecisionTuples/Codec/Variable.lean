import DecisionTuples.Codec.Interval
import DecisionTuples.Variable

/-!
# Declared variables in JSON
-/

namespace DecisionTuples
namespace ValueType

def encode : ValueType → Json
  | bool => .obj [("type", .str "bool")]
  | number precision => .obj [("type", .str "number"), ("precision", precision.encode)]

def decode? (json : Json) : Option ValueType :=
  match json.tagged? "type" with
  | some ("bool", record) => if record.hasNoParts then some bool else none
  | some ("number", record) =>
    ((record.part? ["precision"] "precision").bind Json.asNumber?).map number
  | _ => none

end ValueType

namespace Variable

def encode (declared : Variable) : Json :=
  .obj [("var_name", .str declared.name), ("var_type", declared.type.encode)]

def decode? (json : Json) : Option Variable := do
  let part := json.part? ["var_name", "var_type"]
  let name ← (part "var_name").bind Json.asString?
  let type ← (part "var_type").bind ValueType.decode?
  return ⟨name, type⟩

end Variable
end DecisionTuples
