import DecisionTuples.Feature.Basic
import DecisionTuples.Grammar.Token

/-!
# Statements in source order

Reading a feature gives its statements in the order in which they stand in the
text, with each declared precision still spelled out.  `Feature.ofItems` sorts
the statements by kind and turns spellings into values.  A precision must be
greater than zero as a number, so a spelling whose value vanishes is refused
too; of several refused precisions the first in the text is the one reported.
-/

namespace DecisionTuples

/-- A declared type as it is written. -/
inductive TypeExpr where
  | bool
  | int
  | num
  | numWith (precision : Numeral)

/-- A statement of a feature. -/
inductive Item where
  | declaration (name : String) (type : TypeExpr)
  | decision (decision : Decision)
  | nested (items : List Item)

/-- The type that is written, or the precision that is not greater than zero. -/
def TypeExpr.valueType : TypeExpr → Except Numeral ValueType
  | bool => .ok .bool
  | int => .ok .int
  | num => .ok .num
  | numWith precision =>
    if Number.zero < precision.value false then .ok (.number (precision.value false))
    else .error precision

mutual

/-- The feature of the given statements, or the first refused precision. -/
def Feature.ofItems : List Item → Except Numeral Feature
  | [] => .ok .empty
  | item :: rest => do
    let add ← item.interpret
    let feature ← Feature.ofItems rest
    return add feature

/-- What a statement adds at the front of a feature. -/
def Item.interpret : Item → Except Numeral (Feature → Feature)
  | .declaration name type => do
    let declared ← type.valueType
    return fun feature =>
      { feature with declarations := ⟨name, declared⟩ :: feature.declarations }
  | .decision decision =>
    .ok fun feature => { feature with decisions := decision :: feature.decisions }
  | .nested items => do
    let inner ← Feature.ofItems items
    return fun feature => { feature with features := inner :: feature.features }

end

end DecisionTuples
