import DecisionTuples.Codec.Record
import DecisionTuples.Interval.Region

/-!
# Numbers, intervals and relations in JSON

A number is a JSON number.  One that is not finite is written as `null`, which
does not read as a number, so only finite numbers survive.  The bound of an
interval has a form of its own in which everything survives: bounds that are not
finite are written as words.
-/

namespace DecisionTuples
namespace Number

/-- A number as a plain value. -/
def encode (a : Number) : Json := if a.isFinite then .num a else .null

/-- A number as the bound of an interval. -/
def encodeBound (a : Number) : Json :=
  if a.isFinite then .num a
  else if a.isNaN then .str "NaN"
  else if zero < a then .str "Inf"
  else .str "-Inf"

/-- The number that a bound is written for. -/
def decodeBound? : Json → Option Number
  | .str "Inf" => some infinity
  | .str "-Inf" => some negativeInfinity
  | .str "NaN" => some nan
  | json => json.asNumber?

end Number

namespace Interval

def encode (interval : Interval) : Json :=
  .obj [("lo", interval.lo.encodeBound), ("hi", interval.hi.encodeBound)]

def decode? (json : Json) : Option Interval := do
  let part := json.part? ["lo", "hi"]
  let lo ← (part "lo").bind Number.decodeBound?
  let hi ← (part "hi").bind Number.decodeBound?
  return ⟨lo, hi⟩

end Interval

namespace Openness

def encode (openness : Openness) : Json :=
  .obj [("lo", .bool openness.lo), ("hi", .bool openness.hi)]

def decode? (json : Json) : Option Openness := do
  let part := json.part? ["lo", "hi"]
  let lo ← (part "lo").bind Json.asBool?
  let hi ← (part "hi").bind Json.asBool?
  return ⟨lo, hi⟩

end Openness

namespace Segment

def encode (segment : Segment) : Json :=
  .obj [("is_open", segment.openness.encode), ("interval", segment.interval.encode)]

def decode? (json : Json) : Option Segment := do
  let part := json.part? ["is_open", "interval"]
  let openness ← (part "is_open").bind Openness.decode?
  let interval ← (part "interval").bind Interval.decode?
  return ⟨openness, interval⟩

end Segment

namespace Region

def encode (region : Region) : Json := .arr (region.segments.map Segment.encode)

/-- An array without any segment is no region. -/
def decode? (json : Json) : Option Region :=
  (json.asList? Segment.decode?).bind ofSegments?

end Region

namespace Relation

def encode (relation : Relation) : Json := .str relation.name

def decode? (json : Json) : Option Relation := json.variantName?.bind ofName?

/-- The relation that is written inside a tagged value. -/
def decodeInner? (json : Json) : Option Relation := json.innerVariantName?.bind ofName?

end Relation
end DecisionTuples
