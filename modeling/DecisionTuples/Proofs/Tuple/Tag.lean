import DecisionTuples.Proofs.Interval.Gaps
import DecisionTuples.Proofs.Tuple.Intersection
import DecisionTuples.Proofs.Tuple.OfPath

/-!
# What the relation of a slot tells

A slot stands under a comparison only if all conditions it was made from compare the
variable in that way: slots of different relations join to plain membership, and plain
membership stays what it is.  So the relation tells the shape of the region
(`SlotsOf.told`): the solutions of the comparison with one of the constants, unless the
comparison is an inequality.  One inequality is kept as an open point; several leave the
gaps between the numbers they exclude, which are the solutions of no single comparison as
soon as there are two such numbers.
-/

namespace DecisionTuples

/-- Read with the variable on the left, the condition compares it in this way with the
number. -/
def Condition.Compares (comparison : Comparison) (condition : Condition) (constant : Number) :
    Prop :=
  ∃ name side written, condition = .comparison name side constant written ∧
    facingRight side written = comparison

/-- The shape of a region that is kept under a comparison of the given conditions on one
variable. -/
inductive Region.Told (conditions : List Condition) : Comparison → Region → Prop
  /-- The solutions of the comparison with one of the constants. -/
  | solutions {comparison : Comparison} {constants : List Number} {constant : Number}
      (hne : comparison ≠ .notEqual)
      (h : List.Forall₂ (Condition.Compares comparison) conditions constants)
      (hmem : constant ∈ constants) : Told conditions comparison (.solutions comparison constant)
  /-- A single inequality. -/
  | openPoint {condition : Condition} {constant : Number} (halone : conditions = [condition])
      (h : condition.Compares .notEqual constant) :
      Told conditions .notEqual (.solutions .notEqual constant)
  /-- What several inequalities leave of the line. -/
  | gaps {constants excluded : List Number} {region : Region} (hseveral : 2 ≤ conditions.length)
      (h : List.Forall₂ (Condition.Compares .notEqual) conditions constants)
      (hexcluded : Excluded constants excluded)
      (hregion : region.segments = Segment.gaps excluded) : Told conditions .notEqual region

/-- The regions as they are intersected: an inequality is every number but one. -/
def Region.widened : Comparison → Number → Region
  | .notEqual, constant => excluding constant
  | comparison, constant => solutions comparison constant

theorem Region.widened_eq_solutions {comparison : Comparison} (hne : comparison ≠ .notEqual) :
    widened comparison = solutions comparison := by
  funext constant
  cases comparison <;> first | rfl | exact absurd rfl hne

namespace Slot

variable {a b : Slot} {comparison : Comparison} {region : Region} {precision : Number}

/-- What a slot under a comparison has to tell. -/
def Told (conditions : List Condition) : Slot → Prop
  | range (.compares comparison) region _ => region.Told conditions comparison
  | _ => True

/-- The slot is a region under the comparison. -/
def Under (comparison : Comparison) (slot : Slot) (region : Region) : Prop :=
  ∃ precision, slot = range (.compares comparison) region precision

theorem widen_solutions (comparison : Comparison) (constant precision : Number) :
    (range (.compares comparison) (.solutions comparison constant) precision).widen =
      range (.compares comparison) (.widened comparison constant) precision := by
  cases comparison <;> rfl

/-- Only slots under one and the same comparison join to a slot under it. -/
theorem under_of_intersect? (ha : a ≠ missing) (hb : b ≠ missing)
    (h : a.intersect? b = some (range (.compares comparison) region precision)) :
    ∃ first second, a.Under comparison first ∧ b.Under comparison second ∧
      first.intersect? second = some region := by
  generalize hrelation : Relation.compares comparison = joined at h
  cases joins_of_intersect? h with
  | missing_left => exact absurd rfl ha
  | missing_right => exact absurd rfl hb
  | @range relation relation' first second _ _ _ hcommon =>
      unfold joinRelation at hrelation
      split at hrelation
      · next heq =>
          subst heq hrelation
          exact ⟨first, second, ⟨_, rfl⟩, ⟨_, rfl⟩, hcommon⟩
      · cases hrelation

theorem under_of_foldlM : ∀ {slots : List Slot} {start : Slot}, start ≠ missing →
    (∀ slot ∈ slots, slot ≠ missing) →
    slots.foldlM Slot.intersect? start = some (range (.compares comparison) region precision) →
      ∃ first regions, start.Under comparison first ∧
        List.Forall₂ (Under comparison) slots regions ∧
        regions.foldlM Region.intersect? first = some region
  | [], start, _, _, h => by
      cases h
      exact ⟨region, [], ⟨precision, rfl⟩, .nil, rfl⟩
  | slot :: rest, start, hstart, hslots, h => by
      obtain ⟨hslot, hrest⟩ := List.forall_mem_cons.mp hslots
      obtain ⟨next, hnext, hlast⟩ := Option.bind_eq_some_iff.mp h
      have hmissing : next ≠ missing := by
        rintro rfl
        exact hstart (eq_missing_of_intersect? hnext).1
      obtain ⟨common, regions, ⟨_, rfl⟩, hregions, hfold⟩ :=
        under_of_foldlM hmissing hrest hlast
      obtain ⟨first, second, hfirst, hsecond, hcommon⟩ :=
        under_of_intersect? hstart hslot hnext
      refine ⟨first, second :: regions, hfirst, .cons hsecond hregions, ?_⟩
      rw [List.foldlM_cons, hcommon]
      exact hfold

end Slot

section

variable {condition : Condition} {conditions : List Condition} {declared : Variable}
  {slot : Slot} {slots : List Slot} {comparison : Comparison} {region : Region}

theorem Condition.Compares.ne_nan {constant : Number} (h : condition.Compares comparison constant)
    (hordered : condition.Ordered) : constant ≠ .nan := by
  obtain ⟨name, side, written, rfl, -⟩ := h
  exact hordered

theorem Condition.compares_of_slot (h : condition.requirement.slot declared = .ok slot)
    (hunder : slot.Under comparison region) :
    ∃ constant, condition.Compares comparison constant ∧
      region = .solutions comparison constant := by
  obtain ⟨precision', rfl⟩ := hunder
  rcases slot_cases h with ⟨_, _, _, -, hslot⟩ |
    ⟨name, side, constant, written, precision, rfl, hslot⟩ | ⟨_, _, _, _, -, hslot⟩
  · cases hslot
  · injection hslot with hrelation hregion
    obtain rfl := Relation.compares.inj hrelation
    exact ⟨constant, ⟨name, side, written, rfl, rfl⟩, hregion⟩
  · cases hslot

theorem Condition.compares_of_slot_widen (h : condition.requirement.slot declared = .ok slot)
    (hunder : slot.widen.Under comparison region) :
    ∃ constant, condition.Compares comparison constant ∧
      region = .widened comparison constant := by
  obtain ⟨precision', hunder⟩ := hunder
  rcases slot_cases h with ⟨_, _, _, -, rfl⟩ |
    ⟨name, side, constant, written, precision, rfl, rfl⟩ | ⟨_, _, _, _, -, rfl⟩
  · cases hunder
  · rw [Slot.widen_solutions] at hunder
    injection hunder with hrelation hregion
    obtain rfl := Relation.compares.inj hrelation
    exact ⟨constant, ⟨name, side, written, rfl, rfl⟩, hregion.symm⟩
  · cases hunder

/-- Where all the widened slots of some conditions are under one comparison, the conditions
all compare the variable in that way. -/
theorem SlotsOf.exists_constants (h : SlotsOf declared conditions slots) :
    ∀ {regions : List Region},
      List.Forall₂ (Slot.Under comparison) (slots.map Slot.widen) regions →
        ∃ constants, List.Forall₂ (Condition.Compares comparison) conditions constants ∧
          regions = constants.map (Region.widened comparison) := by
  induction h with
  | nil =>
      intro regions hregions
      cases hregions
      exact ⟨[], .nil, rfl⟩
  | cons hslot _ ih =>
      intro regions hregions
      obtain ⟨region, rest, hregion, hrest, rfl⟩ := List.forall₂_cons_left_iff.mp hregions
      obtain ⟨constant, hconstant, rfl⟩ := Condition.compares_of_slot_widen hslot hregion
      obtain ⟨constants, hconstants, rfl⟩ := ih hrest
      exact ⟨constant :: constants, .cons hconstant hconstants, rfl⟩

/-- So what is kept of several conditions under a comparison was intersected from regions of
that comparison. -/
theorem SlotsOf.exists_fold (h : SlotsOf declared conditions slots)
    (hseveral : 1 < conditions.length) {precision : Number}
    (hcombine : Slot.combine? slots = some (.range (.compares comparison) region precision)) :
    ∃ first more, List.Forall₂ (Condition.Compares comparison) conditions (first :: more) ∧
      (more.map (Region.widened comparison)).foldlM Region.intersect?
        (.widened comparison first) = some region := by
  obtain ⟨hall, hlength, hmissing⟩ := h.combine?_eq hseveral
  rw [hall] at hcombine
  match hwidened : slots.map Slot.widen with
  | [] => simp [hwidened] at hlength
  | slot :: rest =>
      rw [hwidened] at hcombine hmissing
      obtain ⟨hslot, hrest⟩ := List.forall_mem_cons.mp hmissing
      rw [Slot.intersectAll?, List.foldlM_cons, Slot.missing_intersect?] at hcombine
      obtain ⟨first, regions, hfirst, hregions, hfold⟩ :=
        Slot.under_of_foldlM hslot hrest hcombine
      have hunder : List.Forall₂ (Slot.Under comparison) (slots.map Slot.widen)
          (first :: regions) := by
        rw [hwidened]
        exact .cons hfirst hregions
      obtain ⟨constants, hconstants, hmap⟩ := h.exists_constants hunder
      cases constants with
      | nil => cases hmap
      | cons constant more =>
          cases hmap
          exact ⟨constant, more, hconstants, hfold⟩

/-- What is kept of several conditions under a comparison has the shape that the comparison
tells. -/
theorem SlotsOf.told_of_several (h : SlotsOf declared conditions slots)
    (hordered : ∀ condition ∈ conditions, condition.Ordered) (hseveral : 1 < conditions.length)
    {precision : Number}
    (hcombine : Slot.combine? slots = some (.range (.compares comparison) region precision)) :
    region.Told conditions comparison := by
  obtain ⟨first, more, hconstants, hfold⟩ := h.exists_fold hseveral hcombine
  by_cases hne : comparison = .notEqual
  · subst hne
    have hnan : ∀ constant ∈ first :: more, constant ≠ .nan := by
      intro constant hconstant
      obtain ⟨condition, hcondition, hcompares⟩ := exists_mem_of_forall₂ hconstants.flip hconstant
      exact Condition.Compares.ne_nan hcompares (hordered condition hcondition)
    obtain ⟨hfirst, hmore⟩ := List.forall_mem_cons.mp hnan
    obtain ⟨excluded, hexcluded, hsegments⟩ := Region.exists_gaps hfirst hmore hfold
    -- Intersecting has left no empty segments, so the gaps are all there is.
    obtain ⟨hall, hlength, hmissing⟩ := h.combine?_eq hseveral
    have hsolid : region.Solid :=
      Slot.solid_of_intersectAll? hmissing hlength (hall.symm.trans hcombine)
    rw [hsolid.solidSegments_eq] at hsegments
    exact .gaps hseveral hconstants hexcluded hsegments
  · rw [Region.widened_eq_solutions hne] at hfold
    obtain ⟨constant, hconstant, rfl⟩ := Region.solutions_of_foldlM hne hfold
    exact .solutions hne hconstants hconstant

/-- The region of a single condition has the shape that its comparison tells. -/
theorem Condition.told_of_slot {precision : Number} (h : condition.requirement.slot declared =
    .ok (.range (.compares comparison) region precision)) : region.Told [condition] comparison := by
  obtain ⟨constant, hcompares, rfl⟩ := compares_of_slot h ⟨precision, rfl⟩
  by_cases hne : comparison = .notEqual
  · subst hne
    exact .openPoint rfl hcompares
  · exact .solutions hne (.cons hcompares .nil) (List.mem_singleton_self constant)

/-- **The relation of a slot tells its shape.** -/
theorem SlotsOf.told (h : SlotsOf declared conditions slots)
    (hordered : ∀ condition ∈ conditions, condition.Ordered)
    (hcombine : Slot.combine? slots = some slot) : slot.Told conditions := by
  unfold Slot.Told
  split
  · next comparison region precision =>
      rcases h.combine?_cases hcombine with hseveral | ⟨condition, rfl, hslot⟩ | hmissing
      · exact h.told_of_several hordered hseveral hcombine
      · exact Condition.told_of_slot hslot
      · cases hmissing
  · trivial

end

end DecisionTuples
