import DecisionTuples.Proofs.Interval.Separation
import DecisionTuples.Proofs.Tuple.Intersection
import DecisionTuples.Proofs.Tuple.OfPath

/-!
# The normal form of what is kept of several conditions

The region that is kept for a variable has its segments in increasing order and apart from
each other, and it has few of them: one, and at most one more for each inequality among the
conditions (`SlotsOf.normalForm`).  Nothing in the code sorts or merges segments.  They come
in order because each condition's own region does, and intersecting keeps the order
(`Slot.Regular`); they are few because only a widened inequality has a *cut* in it, and
intersecting adds up the cuts at most (`Slot.cuts_of_foldlM`).
-/

namespace DecisionTuples

/-- The condition is an inequality between its variable and a number. -/
def Condition.isInequality : Condition → Bool
  | comparison _ _ _ .notEqual => true
  | _ => false

/-- What can be said of the region that is kept of the given conditions on one variable. -/
structure Region.NormalForm (conditions : List Condition) (region : Region) : Prop where
  /-- Each segment ends before the next ones begin, or shares with them a bound that one of
  the two leaves out. -/
  apart : region.segments.Pairwise Segment.Apart
  length_le : region.segments.length ≤ 1 + conditions.countP Condition.isInequality
  solid : 2 ≤ conditions.length → region.Solid

namespace Slot

/-- The region of the slot, if it has one, is in normal form. -/
def NormalForm (conditions : List Condition) : Slot → Prop
  | range _ region _ => region.NormalForm conditions
  | _ => True

/-- How many segments follow on the first one. -/
def cuts : Slot → Nat
  | range _ region _ => region.others.length
  | _ => 0

variable {type : ValueType} {a b c : Slot}

/-- Joining two slots adds up their cuts at most. -/
theorem cuts_of_intersect? (ha : a.Regular type) (hb : b.Regular type)
    (h : a.intersect? b = some c) : c.cuts ≤ a.cuts + b.cuts := by
  cases joins_of_intersect? h with
  | missing_left => exact Nat.le_add_left _ _
  | missing_right => exact Nat.le_add_right _ _
  | truth => exact Nat.zero_le _
  | range _ _ _ _ hcommon =>
      obtain ⟨-, hordered, hsorted⟩ := ha
      obtain ⟨-, hordered', hsorted'⟩ := hb
      exact Region.length_others_of_intersect? hordered hordered' hsorted hsorted' hcommon

theorem cuts_of_foldlM : ∀ {slots : List Slot} {start : Slot}, start.Regular type →
    (∀ slot ∈ slots, slot.Regular type) → slots.foldlM Slot.intersect? start = some c →
      c.cuts ≤ start.cuts + (slots.map cuts).sum
  | [], start, _, _, h => by
      cases h
      exact Nat.le_add_right _ _
  | slot :: rest, start, hstart, hslots, h => by
      obtain ⟨hslot, hrest⟩ := List.forall_mem_cons.mp hslots
      obtain ⟨next, hnext, hlast⟩ := Option.bind_eq_some_iff.mp h
      have hfirst := cuts_of_intersect? hstart hslot hnext
      have hothers := cuts_of_foldlM (hstart.intersect? hslot hnext) hrest hlast
      rw [List.map_cons, List.sum_cons]
      omega

end Slot

section

variable {condition : Condition} {conditions : List Condition} {declared : Variable}
  {slot : Slot} {slots : List Slot}

theorem isInequality_comparison (name : String) (side : Side) (constant : Number)
    (written : Comparison) :
    (Condition.comparison name side constant written).isInequality =
      decide (Condition.facingRight side written = .notEqual) := by
  cases side <;> cases written <;> rfl

/-- A condition alone comes to one segment. -/
theorem Condition.cuts_of_slot (h : condition.requirement.slot declared = .ok slot) :
    slot.cuts = 0 := by
  rcases slot_cases h with ⟨_, _, _, -, rfl⟩ | ⟨_, side, _, written, _, -, rfl⟩ |
    ⟨_, _, _, _, -, rfl⟩
  · rfl
  · cases facingRight side written <;> rfl
  · rfl

/-- Widened, only an inequality has a cut. -/
theorem Condition.cuts_widen_of_slot (h : condition.requirement.slot declared = .ok slot) :
    slot.widen.cuts = if condition.isInequality then 1 else 0 := by
  rcases slot_cases h with ⟨_, _, _, rfl, rfl⟩ | ⟨_, side, _, written, _, rfl, rfl⟩ |
    ⟨_, _, _, _, rfl, rfl⟩
  · rfl
  · rw [isInequality_comparison]
    cases facingRight side written <;> rfl
  · rfl

theorem SlotsOf.sum_cuts (h : SlotsOf declared conditions slots) :
    ((slots.map Slot.widen).map Slot.cuts).sum = conditions.countP Condition.isInequality := by
  induction h with
  | nil => rfl
  | cons hslot _ ih =>
      rw [List.map_cons, List.map_cons, List.sum_cons, ih, Condition.cuts_widen_of_slot hslot,
        List.countP_cons, Nat.add_comm]

theorem SlotsOf.forall_widened_regular (h : SlotsOf declared conditions slots)
    (hordered : ∀ condition ∈ conditions, condition.Ordered) :
    ∀ slot ∈ slots.map Slot.widen, slot.Regular declared.type := by
  refine (h.forall_widen_iff (P := fun _ => True) ?_).mpr fun _ _ => trivial
  intro condition hmem slot hslot
  exact iff_of_true trivial ((condition.regular_requirement (hordered condition hmem)).slot hslot).2

/-- What several conditions leave of the line is in normal form. -/
theorem SlotsOf.normalForm_of_several (h : SlotsOf declared conditions slots)
    (hordered : ∀ condition ∈ conditions, condition.Ordered) (hseveral : 1 < conditions.length)
    {relation : Relation} {region : Region} {precision : Number}
    (hcombine : Slot.combine? slots = some (.range relation region precision)) :
    region.NormalForm conditions := by
  obtain ⟨hall, hlength, hmissing⟩ := h.combine?_eq hseveral
  rw [hall] at hcombine
  have hstart : Slot.missing.Regular declared.type := trivial
  have hregular := h.forall_widened_regular hordered
  have hsolid : region.Solid := Slot.solid_of_intersectAll? hmissing hlength hcombine
  have hsorted : region.Sorted := (hstart.foldlM hregular hcombine).2.2
  have hcuts := Slot.cuts_of_foldlM hstart hregular hcombine
  rw [h.sum_cuts] at hcuts
  refine ⟨hsorted.apart hsolid, ?_, fun _ => hsolid⟩
  simp only [Slot.cuts, Region.segments, List.length_cons] at hcuts ⊢
  omega

/-- The region of a single condition is in normal form: it has one segment only. -/
theorem Condition.normalForm_of_slot {relation : Relation} {region : Region} {precision : Number}
    (h : condition.requirement.slot declared = .ok (.range relation region precision)) :
    region.NormalForm [condition] := by
  have hothers : region.others = [] := List.length_eq_zero_iff.mp (cuts_of_slot h)
  have hsegments : region.segments = [region.first] := by rw [Region.segments, hothers]
  refine ⟨?_, ?_, fun htwo => by simp at htwo⟩
  · rw [hsegments]
    exact List.pairwise_singleton _ _
  · rw [hsegments]
    exact Nat.le_add_right _ _

/-- **What is kept of the conditions on a variable is in normal form.** -/
theorem SlotsOf.normalForm (h : SlotsOf declared conditions slots)
    (hordered : ∀ condition ∈ conditions, condition.Ordered)
    (hcombine : Slot.combine? slots = some slot) : slot.NormalForm conditions := by
  cases slot with
  | missing => trivial
  | truth relation value => trivial
  | range relation region precision =>
      rcases h.combine?_cases hcombine with hseveral | ⟨condition, rfl, hslot⟩ | hmissing
      · exact h.normalForm_of_several hordered hseveral hcombine
      · exact Condition.normalForm_of_slot hslot
      · cases hmissing

end

end DecisionTuples
