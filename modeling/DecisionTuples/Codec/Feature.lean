import DecisionTuples.Codec.Variable
import DecisionTuples.Feature.Basic

/-!
# Conditions, decisions and features in JSON

Decisions and features nest, so they are read down to a depth.  Every level of
nesting is a level of the JSON value too, whose own depth is therefore enough.

What is decoded is a JSON value, however deeply it is nested.  A reader of JSON
text stops at some depth (`Json.maxOpen`), and a feature that is nested deeper is
not read from text; that is no matter of its form.
-/

namespace DecisionTuples
namespace Condition

def encode : Condition → Json
  | truth name equality value =>
    .obj [("type", .str "bool"), ("var_name", .str name), ("eq_op", .str equality.name),
      ("bool_val", .bool value)]
  | comparison name side constant written =>
    .obj [("type", .str "binary"), ("var_name", .str name),
      ("constant_position", .str side.name), ("constant", constant.encode),
      ("binary_op", .str written.name)]
  | membership name interval openness =>
    .obj [("type", .str "interval"), ("var_name", .str name), ("interval_op", .str "In"),
      ("interval", interval.encode), ("is_open", openness.encode)]

def decodeTruth? (record : Json) : Option Condition := do
  let part := record.part? ["var_name", "eq_op", "bool_val"]
  let name ← (part "var_name").bind Json.asString?
  let equality ← ((part "eq_op").bind Json.innerVariantName?).bind Equality.ofName?
  let value ← (part "bool_val").bind Json.asBool?
  return truth name equality value

def decodeComparison? (record : Json) : Option Condition := do
  let part := record.part? ["var_name", "constant_position", "constant", "binary_op"]
  let name ← (part "var_name").bind Json.asString?
  let side ← ((part "constant_position").bind Json.innerVariantName?).bind Side.ofName?
  let constant ← (part "constant").bind Json.asNumber?
  let written ← ((part "binary_op").bind Json.innerVariantName?).bind Comparison.ofName?
  return comparison name side constant written

def decodeMembership? (record : Json) : Option Condition := do
  let part := record.part? ["var_name", "interval_op", "interval", "is_open"]
  let name ← (part "var_name").bind Json.asString?
  let operator ← (part "interval_op").bind Json.innerVariantName?
  let interval ← (part "interval").bind Interval.decode?
  let openness ← (part "is_open").bind Openness.decode?
  if operator = "In" then return membership name interval openness else none

def decode? (json : Json) : Option Condition :=
  match json.tagged? "type" with
  | some ("bool", record) => decodeTruth? record
  | some ("binary", record) => decodeComparison? record
  | some ("interval", record) => decodeMembership? record
  | _ => none

/-- Conditions that hold together. -/
def encodeAll (conditions : List Condition) : Json :=
  .obj [("conditions", .arr (conditions.map encode))]

def decodeAll? (json : Json) : Option (List Condition) :=
  (json.part? ["conditions"] "conditions").bind (Json.asList? decode?)

end Condition

mutual

def Decision.encode : Decision → Json
  | ⟨conditions, body, elseIfs, otherwise⟩ =>
    .obj [("conditions", Condition.encodeAll conditions), ("body", encodeBody body),
      ("else_if", .arr (encodeElseIfs elseIfs)), ("else_node", encodeOtherwise otherwise)]

/-- The decisions between braces, or `null` without braces. -/
def encodeBody : Option (List Decision) → Json
  | none => .null
  | some decisions => .arr (encodeDecisions decisions)

/-- The closing alternative, or `null` without one. -/
def encodeOtherwise : Option (List Decision) → Json
  | none => .null
  | some decisions => .obj [("body", .arr (encodeDecisions decisions))]

def encodeDecisions : List Decision → List Json
  | [] => []
  | decision :: rest => decision.encode :: encodeDecisions rest

def encodeElseIfs : List ElseIf → List Json
  | [] => []
  | ⟨conditions, body⟩ :: rest =>
    .obj [("conditions", Condition.encodeAll conditions), ("body", encodeBody body)] ::
      encodeElseIfs rest

end

namespace Decision

/-- An alternative, where `decision` reads the decisions in its body. -/
def decodeElseIf? (decision : Json → Option Decision) (json : Json) : Option ElseIf := do
  let part := json.part? ["conditions", "body"]
  let conditions ← (part "conditions").bind Condition.decodeAll?
  let body ← Json.asOptional? (Json.asList? decision) (part "body")
  return ⟨conditions, body⟩

/-- The closing alternative, where `decision` reads the decisions in it. -/
def decodeOtherwise? (decision : Json → Option Decision) (json : Json) :
    Option (List Decision) :=
  (json.part? ["body"] "body").bind (Json.asList? decision)

/-- A decision nested at most `depth` deep. -/
def decodeWithin? : Nat → Json → Option Decision
  | 0, _ => none
  | depth + 1, json => do
    let part := json.part? ["conditions", "body", "else_if", "else_node"]
    let conditions ← (part "conditions").bind Condition.decodeAll?
    let body ← Json.asOptional? (Json.asList? (decodeWithin? depth)) (part "body")
    let elseIfs ← (part "else_if").bind (Json.asList? (decodeElseIf? (decodeWithin? depth)))
    let otherwise ←
      Json.asOptional? (decodeOtherwise? (decodeWithin? depth)) (part "else_node")
    return ⟨conditions, body, elseIfs, otherwise⟩

/-- The decision of a JSON value of any depth. -/
def decode? (json : Json) : Option Decision := decodeWithin? json.depth json

end Decision

mutual

def Feature.encode : Feature → Json
  | ⟨declarations, decisions, features⟩ =>
    .obj [("variables", .arr (declarations.map Variable.encode)),
      ("if_statements", .arr (encodeDecisions decisions)),
      ("features", .arr (encodeFeatures features))]

def encodeFeatures : List Feature → List Json
  | [] => []
  | feature :: rest => feature.encode :: encodeFeatures rest

end

namespace Feature

/-- A feature nested at most `depth` deep. -/
def decodeWithin? : Nat → Json → Option Feature
  | 0, _ => none
  | depth + 1, json => do
    let part := json.part? ["variables", "if_statements", "features"]
    let declarations ← (part "variables").bind (Json.asList? Variable.decode?)
    let decisions ← (part "if_statements").bind (Json.asList? (Decision.decodeWithin? depth))
    let features ← (part "features").bind (Json.asList? (decodeWithin? depth))
    return ⟨declarations, decisions, features⟩

/-- The feature of a JSON value of any depth; text is limited in how deeply it nests. -/
def decode? (json : Json) : Option Feature := decodeWithin? json.depth json

end Feature
end DecisionTuples
