import DecisionTuples.Number.Basic

/-!
# JSON values

The values in which features, paths and tuples are exchanged.  Numbers come in
two kinds: `int` for text without fraction and exponent, which is how counts are
written, and `num` for all other numbers.  An object is a list of fields; where
a key is repeated the last field of that key counts.
-/

namespace DecisionTuples

/-- A JSON value. -/
inductive Json where
  | null
  | bool (value : Bool)
  | int (value : Int)
  | num (value : Number)
  | str (value : String)
  | arr (items : List Json)
  | obj (fields : List (String × Json))

namespace Json

/-- The value of the last field with the given key. -/
def lookup? (key : String) : List (String × Json) → Option Json
  | [] => none
  | (name, value) :: rest =>
    match lookup? key rest with
    | some later => some later
    | none => if name = key then some value else none

/-- The field of an object with the given key. -/
def get? (key : String) : Json → Option Json
  | obj fields => lookup? key fields
  | _ => none

/-- The field lies before the other in the order of keys. -/
def fieldBefore (a b : String × Json) : Bool := decide (a.1 ≤ b.1)

mutual

/-- The same value with the fields of every object in the order of their keys. -/
def sorted : Json → Json
  | arr items => arr (sortedItems items)
  | obj fields => obj ((sortedFields fields).mergeSort fieldBefore)
  | json => json

/-- Each value of a list with its fields in order. -/
def sortedItems : List Json → List Json
  | [] => []
  | json :: rest => json.sorted :: sortedItems rest

/-- The fields of one object, in place, with the fields of their values in
order. -/
def sortedFields : List (String × Json) → List (String × Json)
  | [] => []
  | (key, json) :: rest => (key, json.sorted) :: sortedFields rest

end

mutual

/-- How deeply values are nested, a plain value being at depth one. -/
def depth : Json → Nat
  | arr items => depthItems items + 1
  | obj fields => depthFields fields + 1
  | _ => 1

/-- The depth of the deepest value of a list. -/
def depthItems : List Json → Nat
  | [] => 0
  | json :: rest => max json.depth (depthItems rest)

/-- The depth of the deepest value of a list of fields. -/
def depthFields : List (String × Json) → Nat
  | [] => 0
  | (_, json) :: rest => max json.depth (depthFields rest)

end

end Json
end DecisionTuples
