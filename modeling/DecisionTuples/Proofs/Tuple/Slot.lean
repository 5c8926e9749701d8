import DecisionTuples.Proofs.Feature.Meaning
import DecisionTuples.Tuple.OfPath

/-!
# What slots admit

A slot can be read in two ways.  `Slot.Reads` takes its region as the union of its
segments.  `Slot.Admits` is what a reader of tuples does: a region under an
inequality that is nothing but an open point `(v, v)` stands there for every number
but `v`.

The two readings agree on a slot whose region has no empty segment, and that is
what intersecting gives.  So one slot alone is judged by the second reading, and
several slots, widened and intersected, by the first.  `Slot.exists_combine?_iff`
puts the two cases together: what is kept of the slots of some conditions admits
exactly the finite values of which all the conditions hold.
-/

namespace DecisionTuples

/-! ## Regions of comparisons -/

namespace Region

theorem admits_excluding (constant : Number) (x : EReal) :
    (excluding constant).Admits x ↔
      Segment.Admits ⟨.opened, .below constant⟩ x ∨
        Segment.Admits ⟨.opened, .above constant⟩ x := by
  simp [Region.Admits, segments, excluding]

/-- Both half-lines are open, so excluding a number leaves every finite point but
it. -/
theorem excluding_admits_iff {constant : Number} {c x : EReal} (h : constant.extended? = some c)
    (hx : x ≠ ⊥ ∧ x ≠ ⊤) : (excluding constant).Admits x ↔ x ≠ c := by
  have hbelow : Segment.Admits ⟨.opened, .below constant⟩ x ↔ ⊥ < x ∧ x < c :=
    Segment.admits_iff_beyond Number.extended?_negativeInfinity h x
  have habove : Segment.Admits ⟨.opened, .above constant⟩ x ↔ c < x ∧ x < ⊤ :=
    Segment.admits_iff_beyond h Number.extended?_infinity x
  rw [admits_excluding, hbelow, habove, ne_iff_lt_or_gt]
  simp [bot_lt_iff_ne_bot.mpr hx.1, lt_top_iff_ne_top.mpr hx.2]

/-- The region of a comparison other than an inequality admits its solutions among the
finite points. -/
theorem solutions_admits_iff {comparison : Comparison} {constant : Number} {c x : EReal}
    (h : constant.extended? = some c) (hne : comparison ≠ .notEqual) (hx : x ≠ ⊥ ∧ x ≠ ⊤) :
    (solutions comparison constant).Admits x ↔ comparison.Relates x c := by
  have hbot : ⊥ < x := bot_lt_iff_ne_bot.mpr hx.1
  have htop : x < ⊤ := lt_top_iff_ne_top.mpr hx.2
  have hbelow (leftOut : Bool) :
      Segment.Admits ⟨⟨true, leftOut⟩, .below constant⟩ x ↔ Beyond leftOut x c :=
    (Segment.admits_iff_beyond Number.extended?_negativeInfinity h x).trans (and_iff_right hbot)
  have habove (leftOut : Bool) :
      Segment.Admits ⟨⟨leftOut, true⟩, .above constant⟩ x ↔ Beyond leftOut c x :=
    (Segment.admits_iff_beyond h Number.extended?_infinity x).trans (and_iff_left htop)
  cases comparison with
  | less => exact (admits_single _ _ _).trans (hbelow true)
  | atMost => exact (admits_single _ _ _).trans (hbelow false)
  | greater => exact (admits_single _ _ _).trans (habove true)
  | atLeast => exact (admits_single _ _ _).trans (habove false)
  | equal =>
      have hpoint : Segment.Admits ⟨.closed, .point constant⟩ x ↔ c ≤ x ∧ x ≤ c :=
        Segment.admits_iff_beyond h h x
      rw [solutions, admits_single, hpoint, and_comm, ← le_antisymm_iff]
      rfl
  | notEqual => exact absurd rfl hne

/-- The only segment of the region is the open point at this number. -/
def openPoint? : Region → Option Number
  | ⟨⟨⟨true, true⟩, ⟨lo, hi⟩⟩, []⟩ => if lo == hi then some lo else none
  | _ => none

theorem openPoint?_solutions_notEqual {constant : Number} {c : EReal}
    (h : constant.extended? = some c) :
    (solutions .notEqual constant).openPoint? = some constant := by
  have hself : (constant == constant) = true := (Number.beq_iff_of_extended? h h).mpr rfl
  change (if constant == constant then some constant else none) = some constant
  rw [if_pos hself]

/-- An open point is an empty segment. -/
theorem Solid.openPoint?_eq_none {region : Region} (h : region.Solid) :
    region.openPoint? = none := by
  have hfirst := h region.first (List.mem_cons_self ..)
  unfold openPoint?
  split
  · split
    · next hpoint => exact absurd (.inr (.inr (.inr ⟨hpoint, .inl rfl⟩))) hfirst
    · rfl
  · rfl

end Region

/-! ## Readings of a slot -/

namespace Slot

/-- The value lies in the slot, its region taken as the union of its segments. -/
def Reads : Slot → Value → Prop
  | missing, _ => True
  | truth _ b, .truth value => value = b
  | range _ region _, .number x => region.Admits x
  | _, _ => False

/-- The value lies in the slot as a reader of tuples takes it. -/
def Admits : Slot → Value → Prop
  | range (.compares .notEqual) region _, .number x =>
    match region.openPoint? with
    | some constant => constant.extended? ≠ some x
    | none => region.Admits x
  | slot, value => slot.Reads value

/-- No bound in the slot is `nan`. -/
def Ordered : Slot → Prop
  | range _ region _ => region.Ordered
  | _ => True

/-- The slot demands something, and no segment in it is empty. -/
def Solid : Slot → Prop
  | missing => False
  | truth _ _ => True
  | range _ region _ => region.Solid

theorem Solid.admits_iff_reads {slot : Slot} (h : slot.Solid) (value : Value) :
    slot.Admits value ↔ slot.Reads value := by
  unfold Admits
  split
  · rw [Region.Solid.openPoint?_eq_none h]
    rfl
  · rfl

/-- A slot without empty segments has a value, possibly an infinite one. -/
theorem Solid.exists_reads {slot : Slot} (h : slot.Solid) : ∃ value, slot.Reads value := by
  cases slot with
  | missing => exact h.elim
  | truth relation b => exact ⟨.truth b, rfl⟩
  | range relation region precision =>
      obtain ⟨x, hx⟩ := Region.Solid.exists_admits h
      exact ⟨.number x, hx⟩

/-! ## Intersections -/

@[simp] theorem missing_intersect? (slot : Slot) : missing.intersect? slot = some slot := by
  cases slot <;> rfl

/-- How two slots join: one of them demands nothing, or both have one truth value, or their
regions have something in common. -/
inductive Joins : Slot → Slot → Slot → Prop
  | missing_left (slot : Slot) : Joins missing slot slot
  | missing_right (slot : Slot) : Joins slot missing slot
  | truth (relation relation' : Relation) (value : Bool) :
      Joins (truth relation value) (truth relation' value) (truth relation value)
  | range (relation relation' : Relation) {region region' common : Region}
      (precision precision' : Number) (h : region.intersect? region' = some common) :
      Joins (range relation region precision) (range relation' region' precision')
        (range (joinRelation relation relation') common precision)

theorem joins_of_intersect? {a b c : Slot} (h : a.intersect? b = some c) : Joins a b c := by
  cases a with
  | missing =>
      rw [missing_intersect?] at h
      cases h
      exact .missing_left b
  | truth relation value =>
      cases b with
      | missing =>
          cases h
          exact .missing_right _
      | truth relation' value' =>
          simp only [Slot.intersect?] at h
          split at h
          · next heq =>
              cases h
              subst heq
              exact .truth relation relation' value
          · cases h
      | range relation' region' precision' => cases h
  | range relation region precision =>
      cases b with
      | missing =>
          cases h
          exact .missing_right _
      | truth relation' value' => cases h
      | range relation' region' precision' =>
          obtain ⟨common, hcommon, rfl⟩ := Option.map_eq_some_iff.mp h
          exact .range relation relation' precision precision' hcommon

theorem Ordered.intersect? {a b c : Slot} (ha : a.Ordered) (hb : b.Ordered)
    (h : a.intersect? b = some c) : c.Ordered := by
  cases joins_of_intersect? h with
  | missing_left => exact hb
  | missing_right => exact ha
  | truth => trivial
  | range _ _ _ _ hcommon => exact Region.Ordered.intersect? ha hb hcommon

/-- An intersection of slots reads exactly the common values, and there is one if there
is such a value. -/
theorem exists_intersect?_iff {a b : Slot} (ha : a.Ordered) (hb : b.Ordered) (value : Value) :
    (∃ c, a.intersect? b = some c ∧ c.Reads value) ↔ a.Reads value ∧ b.Reads value := by
  cases a with
  | missing => simp [Reads]
  | truth relation truth =>
      cases b with
      | missing => simp [Slot.intersect?, Reads]
      | truth relation' truth' =>
          cases value with
          | truth b =>
              by_cases htruth : truth = truth'
              · subst htruth
                simp [Slot.intersect?, Reads]
              · -- No value is both truth values.
                have hne : ¬ (b = truth ∧ b = truth') := fun h => htruth (h.1.symm.trans h.2)
                simp [Slot.intersect?, Reads, htruth, hne]
          | number x =>
              by_cases htruth : truth = truth' <;> simp [Slot.intersect?, Reads, htruth]
      | range relation' region' precision' => cases value <;> simp [Slot.intersect?, Reads]
  | range relation region precision =>
      cases b with
      | missing => simp [Slot.intersect?, Reads]
      | truth relation' truth' => cases value <;> simp [Slot.intersect?, Reads]
      | range relation' region' precision' =>
          cases value with
          | truth b => simp [Slot.intersect?, Reads]
          | number x =>
              rw [Reads, Reads, ← Region.exists_intersect?_iff ha hb x]
              simp [Slot.intersect?, Reads]

/-- Intersecting two slots that demand something leaves no empty segment. -/
theorem solid_of_intersect? {a b c : Slot} (ha : a ≠ missing) (hb : b ≠ missing)
    (h : a.intersect? b = some c) : c.Solid := by
  cases joins_of_intersect? h with
  | missing_left => exact absurd rfl ha
  | missing_right => exact absurd rfl hb
  | truth => trivial
  | range _ _ _ _ hcommon => exact Region.solid_of_intersect? hcommon

theorem Solid.ne_missing {slot : Slot} (h : slot.Solid) : slot ≠ missing := by
  rintro rfl
  exact h

/-- Intersecting one slot after the other reads what the start and all of them
read. -/
theorem exists_foldlM_iff (value : Value) : ∀ (slots : List Slot) (start : Slot),
    start.Ordered → (∀ slot ∈ slots, slot.Ordered) →
      ((∃ c, slots.foldlM Slot.intersect? start = some c ∧ c.Reads value) ↔
        start.Reads value ∧ ∀ slot ∈ slots, slot.Reads value)
  | [], start, _, _ => by simp
  | slot :: rest, start, hstart, hslots => by
      rw [List.forall_mem_cons] at hslots ⊢
      rw [← and_assoc, ← exists_intersect?_iff hstart hslots.1 value, List.foldlM_cons]
      cases hnext : start.intersect? slot with
      | none => simp
      | some next =>
          -- What was intersected so far is the start for the rest.
          have hordered : next.Ordered := hstart.intersect? hslots.1 hnext
          have hrest := exists_foldlM_iff value rest next hordered hslots.2
          simpa using hrest

/-- What each join keeps is kept by joining one slot after the other. -/
theorem foldlM_preserves {P Q : Slot → Prop}
    (hstep : ∀ a b c, P a → Q b → a.intersect? b = some c → P c) :
    ∀ {slots : List Slot} {start c : Slot}, P start → (∀ slot ∈ slots, Q slot) →
      slots.foldlM Slot.intersect? start = some c → P c
  | [], start, c, hstart, _, h => by
      cases h
      exact hstart
  | slot :: rest, start, c, hstart, hslots, h => by
      rw [List.forall_mem_cons] at hslots
      obtain ⟨next, hnext, hrest⟩ := Option.bind_eq_some_iff.mp h
      exact foldlM_preserves hstep (hstep start slot next hstart hslots.1 hnext) hslots.2 hrest

/-- What each join keeps, and widening does not lose, is kept of several slots. -/
theorem combine?_preserves {P : Slot → Prop}
    (hstep : ∀ a b c, P a → P b → a.intersect? b = some c → P c) (hmissing : P missing)
    {slots : List Slot} {c : Slot} (hslots : ∀ slot ∈ slots, P slot)
    (hwiden : ∀ slot ∈ slots, P slot.widen) (h : combine? slots = some c) : P c := by
  unfold combine? at h
  split at h
  · exact foldlM_preserves hstep hmissing (List.forall_mem_map.mpr hwiden) h
  · exact foldlM_preserves hstep hmissing hslots h

/-- From a slot without empty segments on, intersecting gives such slots only. -/
theorem Solid.foldlM {slots : List Slot} {start c : Slot} (hstart : start.Solid)
    (hslots : ∀ slot ∈ slots, slot ≠ missing)
    (h : slots.foldlM Slot.intersect? start = some c) : c.Solid :=
  foldlM_preserves (fun _ _ _ ha hb => solid_of_intersect? ha.ne_missing hb) hstart hslots h

section

variable {slots : List Slot}

theorem exists_intersectAll?_iff (hordered : ∀ slot ∈ slots, slot.Ordered) (value : Value) :
    (∃ c, intersectAll? slots = some c ∧ c.Reads value) ↔ ∀ slot ∈ slots, slot.Reads value := by
  have hfold := exists_foldlM_iff value slots missing trivial hordered
  rw [intersectAll?, hfold]
  exact and_iff_right trivial

/-- Of two or more slots that demand something the intersection has no empty
segment. -/
theorem solid_of_intersectAll? {c : Slot} (hslots : ∀ slot ∈ slots, slot ≠ missing)
    (hlength : 1 < slots.length) (h : intersectAll? slots = some c) : c.Solid := by
  cases slots with
  | nil => simp at hlength
  | cons first rest =>
      cases rest with
      | nil => simp at hlength
      | cons second rest =>
          simp only [List.forall_mem_cons] at hslots
          obtain ⟨hfirst, hsecond, hrest⟩ := hslots
          -- The first slot meets a start that demands nothing, the second one meets the first.
          rw [intersectAll?, List.foldlM_cons, missing_intersect?, Option.bind_eq_bind,
            Option.bind_some, List.foldlM_cons] at h
          obtain ⟨next, hnext, hlast⟩ := Option.bind_eq_some_iff.mp h
          exact (solid_of_intersect? hfirst hsecond hnext).foldlM hrest hlast

end

end Slot
end DecisionTuples
