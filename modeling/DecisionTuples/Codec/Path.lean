import DecisionTuples.Codec.Variable
import DecisionTuples.Path.Basic

/-!
# Requirements, paths and path tables in JSON

Reading does not compare the relation of a requirement with its value; what is
written is kept.
-/

namespace DecisionTuples
namespace Requirement

def encode : Requirement → Json
  | truth name value relation =>
    .obj [("type", .str "bool"), ("var_name", .str name), ("should_equal_to", .bool value),
      ("expression", relation.encode)]
  | membership name relation region =>
    .obj [("type", .str "interval"), ("var_name", .str name), ("expression", relation.encode),
      ("interval", region.encode)]

def decodeTruth? (record : Json) : Option Requirement := do
  let part := record.part? ["var_name", "should_equal_to", "expression"]
  let name ← (part "var_name").bind Json.asString?
  let value ← (part "should_equal_to").bind Json.asBool?
  let relation ← (part "expression").bind Relation.decodeInner?
  return truth name value relation

def decodeMembership? (record : Json) : Option Requirement := do
  let part := record.part? ["var_name", "expression", "interval"]
  let name ← (part "var_name").bind Json.asString?
  let relation ← (part "expression").bind Relation.decodeInner?
  let region ← (part "interval").bind Region.decode?
  return membership name relation region

def decode? (json : Json) : Option Requirement :=
  match json.tagged? "type" with
  | some ("bool", record) => decodeTruth? record
  | some ("interval", record) => decodeMembership? record
  | _ => none

end Requirement

namespace Path

def encode (path : Path) : Json := .arr (path.map Requirement.encode)

def decode? (json : Json) : Option Path := json.asList? Requirement.decode?

end Path

namespace PathTable

def encode (table : PathTable) : Json :=
  .obj [("variables", .arr (table.declarations.map Variable.encode)),
    ("predicates", .arr (table.paths.map Path.encode))]

def decode? (json : Json) : Option PathTable := do
  let part := json.part? ["variables", "predicates"]
  let declarations ← (part "variables").bind (Json.asList? Variable.decode?)
  let paths ← (part "predicates").bind (Json.asList? Path.decode?)
  return ⟨declarations, paths⟩

end PathTable
end DecisionTuples
