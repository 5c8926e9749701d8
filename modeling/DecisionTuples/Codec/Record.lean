import DecisionTuples.Json.Basic
import DecisionTuples.Number.Rounding

/-!
# Records and variants in JSON

The conventions under which values are exchanged:

* a *record* is an object with one field for each of its parts, where fields
  that are not known are passed over, or an array of exactly its parts in their
  order;
* *settings* are records of which every part may be missing and no other field
  may occur, and whose array may be shorter;
* a *tagged* value is an object with its tag in a field, or an array with its tag
  in front;
* a *plain variant* is its name, or an object with nothing but that name.

Reading answers with nothing where a value does not have the wanted form.
-/

namespace DecisionTuples
namespace Json

def asBool? : Json → Option Bool
  | bool value => some value
  | _ => none

def asString? : Json → Option String
  | str value => some value
  | _ => none

/-- Any number, as the nearest one there is. -/
def asNumber? : Json → Option Number
  | int value => some (.ofInt value)
  | num value => some value
  | _ => none

/-- A list of values of one kind. -/
def asList? {α : Type} (decode : Json → Option α) : Json → Option (List α)
  | arr items => items.mapM decode
  | _ => none

/-- A value that may be `null`, or missing altogether. -/
def asOptional? {α : Type} (decode : Json → Option α) : Option Json → Option (Option α)
  | none => some none
  | some null => some none
  | some json => (decode json).map some

/-- A part of a record whose parts, in order, have the given keys. -/
def part? (keys : List String) : Json → String → Option Json
  | obj fields, key => lookup? key fields
  | arr items, key => if items.length = keys.length then items[keys.idxOf key]? else none
  | _, _ => none

/-- A record without parts may stand here. -/
def hasNoParts : Json → Bool
  | obj _ => true
  | arr items => items.isEmpty
  | _ => false

/-- The parts of settings whose parts, in order, have the given keys. -/
def settings? (keys : List String) : Json → Option (String → Option Json)
  | obj fields =>
    if fields.all fun field => decide (field.1 ∈ keys) then
      some fun key => lookup? key fields
    else none
  | arr items =>
    if items.length ≤ keys.length then some fun key => items[keys.idxOf key]? else none
  | _ => none

/-- The tag of a tagged value, and the record that goes with it. -/
def tagged? (key : String) : Json → Option (String × Json)
  | obj fields =>
    match lookup? key fields with
    | some (str tag) => some (tag, obj fields)
    | _ => none
  | arr (str tag :: parts) => some (tag, arr parts)
  | _ => none

/-- The name of a plain variant. -/
def variantName? : Json → Option String
  | str name => some name
  | obj [(name, null)] => some name
  | _ => none

/-- The name of a plain variant inside a tagged value, where an empty object may
stand for the `null` beside the name. -/
def innerVariantName? : Json → Option String
  | obj [(name, obj [])] => some name
  | json => json.variantName?

end Json
end DecisionTuples
