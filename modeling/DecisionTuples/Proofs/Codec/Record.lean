import DecisionTuples.Codec.Record
import DecisionTuples.Codec.Interval
import DecisionTuples.Proofs.Number.Order
import Mathlib.Logic.Basic

/-!
# Reading back what was written

A number that stands plainly in a JSON value is read back exactly if it is finite; all
other data is read back always.  So what decides about a larger value is the list of its
plain numbers: it is read back if all of them are finite, and not read at all if one of
them is not.

`AllFinite` is that condition, and each type has one equation: decoding what was encoded
gives the value under the condition on its plain numbers, and nothing otherwise.  The
equations of the parts put together give the equation of the whole.
-/

namespace DecisionTuples

/-- Every number of the list is finite. -/
def AllFinite (numbers : List Number) : Prop := ∀ a ∈ numbers, a.isFinite = true

instance (numbers : List Number) : Decidable (AllFinite numbers) :=
  inferInstanceAs (Decidable (∀ a ∈ numbers, a.isFinite = true))

@[simp] theorem allFinite_nil : AllFinite [] := nofun

@[simp] theorem allFinite_singleton {a : Number} : AllFinite [a] ↔ a.isFinite = true :=
  List.forall_mem_singleton

@[simp] theorem allFinite_append {numbers others : List Number} :
    AllFinite (numbers ++ others) ↔ AllFinite numbers ∧ AllFinite others :=
  List.forall_mem_append

/-- One part of a record that is read under a condition, and the other parts. -/
@[simp] theorem bind_ite_some {α β : Type} {P : Prop} [Decidable P] (a : α) (f : α → Option β) :
    ((if P then some a else none) >>= f) = if P then f a else none := by
  split <;> rfl

/-- What is read under a condition is read exactly if it holds, and refused exactly if it
does not. -/
theorem read_iff {α : Type} {P : Prop} [Decidable P] (a : α) :
    ((if P then some a else none) = some a ↔ P) ∧
      ((if P then some a else none) = none ↔ ¬ P) := by
  by_cases h : P
  · rw [if_pos h]
    exact ⟨iff_of_true rfl h, iff_of_false (Option.some_ne_none a) (not_not_intro h)⟩
  · rw [if_neg h]
    exact ⟨iff_of_false (Option.some_ne_none a).symm h, iff_of_true rfl h⟩

/-! ## Lists -/

namespace Json

variable {α : Type} {encode : α → Json} {decode : Json → Option α} {plain : α → List Number}

theorem asList?_map (h : ∀ a, decode (encode a) = some a) (xs : List α) :
    asList? decode (.arr (xs.map encode)) = some xs := by
  induction xs with
  | nil => rfl
  | cons x xs ih =>
      rw [asList?] at ih ⊢
      rw [List.map_cons, List.mapM_cons, h x, ih]
      rfl

theorem asList?_map_plain {xs : List α}
    (h : ∀ x ∈ xs, decode (encode x) = if AllFinite (plain x) then some x else none) :
    asList? decode (.arr (xs.map encode)) =
      if AllFinite (xs.flatMap plain) then some xs else none := by
  induction xs with
  | nil => rfl
  | cons x xs ih =>
      obtain ⟨hx, hxs⟩ := List.forall_mem_cons.mp h
      have ih := ih hxs
      rw [asList?] at ih ⊢
      rw [List.map_cons, List.mapM_cons, hx, ih, List.flatMap_cons]
      simp only [bind_ite_some, allFinite_append, ite_and]
      rfl

end Json

/-! ## Numbers -/

namespace Number

/-- A plain number is read back exactly if it is finite. -/
theorem asNumber?_encode (a : Number) :
    a.encode.asNumber? = if a.isFinite then some a else none := by
  unfold encode
  split <;> rfl

/-- The bound of an interval is read back, whatever number it is. -/
@[simp] theorem decodeBound?_encodeBound (a : Number) : decodeBound? a.encodeBound = some a := by
  unfold encodeBound
  by_cases hfinite : a.isFinite = true
  · rw [if_pos hfinite]
    rfl
  · rcases eq_of_not_isFinite hfinite with rfl | rfl | rfl <;> decide +kernel

end Number

/-! ## Intervals, regions and relations -/

@[simp] theorem Interval.decode?_encode (interval : Interval) :
    decode? interval.encode = some interval := by
  simp [decode?, encode, Json.part?, Json.lookup?]

@[simp] theorem Openness.decode?_encode (openness : Openness) :
    decode? openness.encode = some openness := by
  simp [decode?, encode, Json.part?, Json.lookup?, Json.asBool?]

@[simp] theorem Segment.decode?_encode (segment : Segment) :
    decode? segment.encode = some segment := by
  simp [decode?, encode, Json.part?, Json.lookup?]

@[simp] theorem Region.decode?_encode (region : Region) :
    decode? region.encode = some region := by
  rw [decode?, encode, Json.asList?_map Segment.decode?_encode]
  exact ofSegments?_segments region

/-- The array without segments is no region, and every other array of segments is the
region of just these segments. -/
theorem Region.decode?_eq_some_iff {json : Json} {region : Region} :
    decode? json = some region ↔ ∃ items, json = .arr items ∧ items ≠ [] ∧
      items.mapM Segment.decode? = some region.segments := by
  constructor
  · intro h
    obtain ⟨segments, hsegments, hregion⟩ := Option.bind_eq_some_iff.mp h
    cases json with
    | arr items =>
        cases segments with
        | nil => cases hregion
        | cons first others =>
            cases hregion
            refine ⟨items, rfl, ?_, hsegments⟩
            rintro rfl
            cases hsegments
    | _ => cases hsegments
  · rintro ⟨items, rfl, -, hsegments⟩
    rw [decode?, Json.asList?, hsegments]
    exact ofSegments?_segments region

@[simp] theorem Relation.decodeInner?_encode (relation : Relation) :
    decodeInner? relation.encode = some relation :=
  ofName?_name relation

end DecisionTuples
