import DecisionTuples.Interval.Region

/-!
# Slots

A slot is what one path demands of one variable: nothing, a truth value, or
membership in a region.  Two slots can be joined when they can hold together.
A missing slot joins with anything; slots of different kinds never do.
-/

namespace DecisionTuples

/-- The demand of one path on one variable. -/
inductive Slot where
  /-- The path says nothing about the variable. -/
  | missing
  /-- The variable has this truth value. -/
  | truth (relation : Relation) (value : Bool)
  /-- The variable lies in this region; the precision is the declared one. -/
  | range (relation : Relation) (region : Region) (precision : Number)
  deriving DecidableEq

namespace Slot

instance : BEq Slot where
  beq
    | missing, missing => true
    | truth relation value, truth relation' value' =>
      decide (relation = relation') && value == value'
    | range relation region precision, range relation' region' precision' =>
      decide (relation = relation') && region == region' && precision == precision'
    | _, _ => false

def isMissing : Slot → Bool
  | missing => true
  | _ => false

/-- The relation of the slot, unless it is missing. -/
def relation? : Slot → Option Relation
  | missing => none
  | truth relation _ => some relation
  | range relation _ _ => some relation

/-- The slot of a truth value, under the relation that belongs to the value. -/
def ofTruth (value : Bool) : Slot := truth (.holds value) value

/-- The two slots can hold together. -/
def meets : Slot → Slot → Bool
  | missing, _ => true
  | _, missing => true
  | truth _ value, truth _ value' => value == value'
  | range _ region _, range _ region' _ => region.meets region'
  | _, _ => false

/-- The relation of two joined ranges: the common one, or else plain
membership. -/
def joinRelation (a b : Relation) : Relation := if a = b then a else .within

/-- The slot that demands what both slots demand, or nothing if they cannot hold
together.  Relation and precision of truth values, and the precision of
ranges, are those of the first slot. -/
def intersect? : Slot → Slot → Option Slot
  | missing, slot => some slot
  | slot, missing => some slot
  | truth relation value, truth _ value' =>
    if value = value' then some (truth relation value) else none
  | range relation region precision, range relation' region' _ =>
    (region.intersect? region').map fun common =>
      range (joinRelation relation relation') common precision
  | _, _ => none

/-- The displayed form. -/
def text : Slot → String
  | missing => "_"
  | truth _ value => toString value
  | range _ region _ => region.text

end Slot
end DecisionTuples
