import DecisionTuples.Proofs.Except
import DecisionTuples.Proofs.Tuple.Slot

/-!
# The tuple of a path says what its conditions say

The conditions of a path are taken variable by variable.  Those on one variable
become slots, several of them widened, and the slots are intersected.

* `Path.tuple_admits_iff` says that a path has a tuple that admits a valuation
  exactly when the valuation satisfies the conditions of the path.
* `Path.tuple_isSome_iff` says when there is a tuple at all.  Satisfiable
  conditions have one, but so have conditions on a variable that are not
  satisfiable as long as nothing shows it: a single one is never examined, and
  several are only found to contradict each other if they have no infinite point
  in common either.
-/

namespace DecisionTuples

/-! ## Conditions that say something about infinite points -/

namespace Condition

/-- The region of the condition reaches an infinite point: it names the point as a
bound and does not leave it out. -/
def ReachesEnd : Condition → EReal → Prop
  | truth _ _ _, _ => False
  | comparison _ side constant written, x =>
    constant.extended? = some x ∧
      (facingRight side written = .equal ∨ (facingRight side written = .atMost ∧ x = ⊤) ∨
        (facingRight side written = .atLeast ∧ x = ⊥))
  | membership _ interval openness, x => Segment.Admits ⟨openness, interval⟩ x

end Condition

/-- Some finite value has all the conditions hold. -/
def Satisfiable (conditions : List Condition) : Prop :=
  ∃ value : Value, value.IsFinite ∧ ∀ condition ∈ conditions, condition.Holds value

/-- Nothing shows that the conditions on one variable cannot hold together. -/
def Unrefuted (conditions : List Condition) : Prop :=
  Satisfiable conditions ∨ conditions.length = 1 ∨
    ∃ x : EReal, (x = ⊥ ∨ x = ⊤) ∧ ∀ condition ∈ conditions, condition.ReachesEnd x

/-! ## The slot of a condition -/

namespace Slot

section

variable {comparison : Comparison} {constant precision : Number} {c x : EReal}

/-- The region of a comparison, under its own relation, admits the solutions: an
inequality is the open point that is read as every number but one. -/
theorem admits_solutions_iff (h : constant.extended? = some c) (hx : x ≠ ⊥ ∧ x ≠ ⊤) :
    (range (.compares comparison) (.solutions comparison constant) precision).Admits (.number x) ↔
      comparison.Relates x c := by
  by_cases hne : comparison = .notEqual
  · subst hne
    simp only [Admits, Region.openPoint?_solutions_notEqual h, h]
    exact (not_congr Option.some_inj).trans ne_comm
  · rw [← Region.solutions_admits_iff h hne hx]
    cases comparison with
    | notEqual => exact absurd rfl hne
    | _ => exact Iff.rfl

/-- Widened, the region of a comparison is the set of its solutions. -/
theorem widen_reads_solutions_iff (h : constant.extended? = some c) (hx : x ≠ ⊥ ∧ x ≠ ⊤) :
    (range (.compares comparison) (.solutions comparison constant) precision).widen.Reads
        (.number x) ↔ comparison.Relates x c := by
  by_cases hne : comparison = .notEqual
  · subst hne
    exact Region.excluding_admits_iff h hx
  · rw [← Region.solutions_admits_iff h hne hx]
    cases comparison with
    | notEqual => exact absurd rfl hne
    | _ => exact Iff.rfl

/-- At the infinite points a widened region holds what its comparison names as a
closed bound. -/
theorem widen_reads_infinite_iff (hordered : constant ≠ .nan) (hx : x = ⊥ ∨ x = ⊤) :
    (range (.compares comparison) (.solutions comparison constant) precision).widen.Reads
        (.number x) ↔
      constant.extended? = some x ∧
        (comparison = .equal ∨ (comparison = .atMost ∧ x = ⊤) ∨
          (comparison = .atLeast ∧ x = ⊥)) := by
  obtain ⟨c, hc⟩ := Number.exists_extended? hordered
  have hbelow (leftOut : Bool) : Segment.Admits ⟨⟨true, leftOut⟩, .below constant⟩ x ↔
      ⊥ < x ∧ Beyond leftOut x c :=
    Segment.admits_iff_beyond Number.extended?_negativeInfinity hc x
  have habove (leftOut : Bool) : Segment.Admits ⟨⟨leftOut, true⟩, .above constant⟩ x ↔
      Beyond leftOut c x ∧ x < ⊤ :=
    Segment.admits_iff_beyond hc Number.extended?_infinity x
  cases comparison with
  | less =>
      refine ((Region.admits_single _ _ x).trans (hbelow true)).trans ?_
      rcases hx with rfl | rfl <;> simp [Beyond]
  | atMost =>
      refine ((Region.admits_single _ _ x).trans (hbelow false)).trans ?_
      rcases hx with rfl | rfl <;> simp [Beyond, hc]
  | greater =>
      refine ((Region.admits_single _ _ x).trans (habove true)).trans ?_
      rcases hx with rfl | rfl <;> simp [Beyond]
  | atLeast =>
      refine ((Region.admits_single _ _ x).trans (habove false)).trans ?_
      rcases hx with rfl | rfl <;> simp [Beyond, hc]
  | equal =>
      have hpoint : Segment.Admits ⟨.closed, .point constant⟩ x ↔ c ≤ x ∧ x ≤ c :=
        Segment.admits_iff_beyond hc hc x
      refine ((Region.admits_single _ _ x).trans hpoint).trans ?_
      rw [← le_antisymm_iff]
      simp [hc]
  | notEqual =>
      refine ((Region.admits_excluding _ x).trans (or_congr (hbelow true) (habove true))).trans ?_
      rcases hx with rfl | rfl <;> simp [Beyond]

end

end Slot

namespace Condition

variable {condition : Condition} {declared : Variable} {slot : Slot}

/-- Where a condition has a slot for a variable, the slot is of the condition's
kind. -/
theorem slot_cases (h : condition.requirement.slot declared = .ok slot) :
    (∃ name equality b, condition = .truth name equality b ∧
      slot = .ofTruth (equality.resolve b)) ∨
    (∃ name side constant written precision, condition = .comparison name side constant written ∧
      slot = .range (.compares (facingRight side written))
        (.solutions (facingRight side written) constant) precision) ∨
    (∃ name interval openness precision, condition = .membership name interval openness ∧
      slot = .range .within (.single interval openness) precision) := by
  obtain ⟨declaredName, type⟩ := declared
  cases condition with
  | truth name equality b =>
      cases type with
      | bool =>
          cases h
          exact .inl ⟨name, equality, b, rfl, rfl⟩
      | number precision => cases h
  | comparison name side constant written =>
      cases type with
      | bool => cases h
      | number precision =>
          cases h
          exact .inr (.inl ⟨name, side, constant, written, precision, rfl, rfl⟩)
  | membership name interval openness =>
      cases type with
      | bool => cases h
      | number precision =>
          cases h
          exact .inr (.inr ⟨name, interval, openness, precision, rfl, rfl⟩)

theorem slot_ne_missing (h : condition.requirement.slot declared = .ok slot) :
    slot ≠ .missing := by
  rintro rfl
  rcases slot_cases h with ⟨_, _, _, _, hslot⟩ | ⟨_, _, _, _, _, _, hslot⟩ | ⟨_, _, _, _, _, hslot⟩
  · cases hslot
  · cases hslot
  · cases hslot

theorem resolve_iff (equality : Equality) (b value : Bool) :
    value = equality.resolve b ↔
      match equality with
      | .equal => value = b
      | .notEqual => value ≠ b := by
  cases equality with
  | equal => rfl
  | notEqual => cases value <;> cases b <;> decide

theorem reads_ofTruth_iff (name : String) (equality : Equality) (b : Bool) (value : Value) :
    (Slot.ofTruth (equality.resolve b)).Reads value ↔ (truth name equality b).Holds value := by
  cases value with
  | number x => cases equality <;> exact Iff.rfl
  | truth value => cases equality <;> exact resolve_iff _ b value

/-- A comparison says nothing about truth values. -/
theorem not_holds_comparison_truth (name : String) (side : Side) (constant : Number)
    (written : Comparison) (b : Bool) :
    ¬ (comparison name side constant written).Holds (.truth b) := by
  cases side <;> exact id

/-- Slots may be read in any way that changes nothing about truth values and intervals
and takes the region of a comparison for its solutions.  The slot of a condition then
has the finite values of which the condition holds. -/
theorem slot_reading_iff (reads : Slot → Value → Prop)
    (htruth : ∀ b value, reads (.ofTruth b) value ↔ (Slot.ofTruth b).Reads value)
    (hwithin : ∀ region precision value,
      reads (.range .within region precision) value ↔
        (Slot.range .within region precision).Reads value)
    (hkind : ∀ comparison region precision b,
      ¬ reads (.range (.compares comparison) region precision) (.truth b))
    (hsolutions : ∀ comparison constant precision c x, constant.extended? = some c →
      (x ≠ ⊥ ∧ x ≠ ⊤) →
        (reads (.range (.compares comparison) (.solutions comparison constant) precision)
          (.number x) ↔ comparison.Relates x c))
    (hordered : condition.Ordered) (h : condition.requirement.slot declared = .ok slot)
    {value : Value} (hvalue : value.IsFinite) : reads slot value ↔ condition.Holds value := by
  rcases slot_cases h with ⟨name, equality, b, rfl, rfl⟩ |
    ⟨name, side, constant, written, precision, rfl, rfl⟩ |
    ⟨name, interval, openness, precision, rfl, rfl⟩
  · rw [htruth]
    exact reads_ofTruth_iff name equality b value
  · obtain ⟨c, hc⟩ := Number.exists_extended? hordered
    cases value with
    | truth b =>
        have hnone := not_holds_comparison_truth name side constant written b
        exact iff_of_false (hkind _ _ _ b) hnone
    | number x =>
        rw [holds_comparison_iff hc]
        exact hsolutions _ constant precision c x hc hvalue
  · rw [hwithin]
    cases value with
    | truth b => exact Iff.rfl
    | number x => exact Region.admits_single interval openness x

/-- The slot of a condition admits the finite values of which the condition holds. -/
theorem slot_admits_iff (hordered : condition.Ordered)
    (h : condition.requirement.slot declared = .ok slot) {value : Value} (hvalue : value.IsFinite) :
    slot.Admits value ↔ condition.Holds value := by
  refine slot_reading_iff Slot.Admits (fun _ _ => Iff.rfl) (fun _ _ _ => Iff.rfl) ?_ ?_ hordered h
    hvalue
  · intro comparison region precision b
    cases comparison <;> exact id
  · intro comparison constant precision c x hc hx
    exact Slot.admits_solutions_iff hc hx

/-- The widened slot of a condition reads the finite values of which the condition
holds. -/
theorem widen_reads_iff (hordered : condition.Ordered)
    (h : condition.requirement.slot declared = .ok slot) {value : Value} (hvalue : value.IsFinite) :
    slot.widen.Reads value ↔ condition.Holds value := by
  refine slot_reading_iff (fun slot => slot.widen.Reads) (fun _ _ => Iff.rfl)
    (fun _ _ _ => Iff.rfl) ?_ ?_ hordered h hvalue
  · intro comparison region precision b
    cases comparison <;> exact id
  · intro comparison constant precision c x hc hx
    exact Slot.widen_reads_solutions_iff hc hx

/-- At the infinite points the widened slot of a condition reads what the condition
reaches. -/
theorem widen_reads_iff_reachesEnd (hordered : condition.Ordered)
    (h : condition.requirement.slot declared = .ok slot) {x : EReal} (hx : x = ⊥ ∨ x = ⊤) :
    slot.widen.Reads (.number x) ↔ condition.ReachesEnd x := by
  rcases slot_cases h with ⟨name, equality, b, rfl, rfl⟩ |
    ⟨name, side, constant, written, precision, rfl, rfl⟩ |
    ⟨name, interval, openness, precision, rfl, rfl⟩
  · exact Iff.rfl
  · exact Slot.widen_reads_infinite_iff hordered hx
  · exact Region.admits_single interval openness x

theorem ordered_of_slot (hordered : condition.Ordered)
    (h : condition.requirement.slot declared = .ok slot) : slot.Ordered := by
  rcases slot_cases h with ⟨name, equality, b, rfl, rfl⟩ |
    ⟨name, side, constant, written, precision, rfl, rfl⟩ |
    ⟨name, interval, openness, precision, rfl, rfl⟩
  · trivial
  · exact Region.ordered_solutions _ hordered
  · exact Region.ordered_single hordered

theorem ordered_widen_of_slot (hordered : condition.Ordered)
    (h : condition.requirement.slot declared = .ok slot) : slot.widen.Ordered := by
  have hslot := ordered_of_slot hordered h
  rcases slot_cases h with ⟨name, equality, b, rfl, rfl⟩ |
    ⟨name, side, constant, written, precision, rfl, rfl⟩ |
    ⟨name, interval, openness, precision, rfl, rfl⟩
  · trivial
  · cases hcomparison : facingRight side written with
    | notEqual => exact Region.ordered_excluding hordered
    | _ =>
        rw [hcomparison] at hslot
        exact hslot
  · exact hslot

end Condition

/-! ## The conditions on one variable -/

/-- What is said of all elements of one list is said of all elements of the other. -/
theorem forall_mem_iff_of_forall₂ {α β : Type} {R : α → β → Prop} {P : α → Prop} {Q : β → Prop}
    {xs : List α} {ys : List β} (h : List.Forall₂ R xs ys)
    (hPQ : ∀ x ∈ xs, ∀ y, R x y → (P x ↔ Q y)) : (∀ x ∈ xs, P x) ↔ ∀ y ∈ ys, Q y := by
  induction h with
  | nil => simp
  | cons hxy _ ih =>
      rw [List.forall_mem_cons] at hPQ
      rw [List.forall_mem_cons, List.forall_mem_cons, hPQ.1 _ hxy, ih hPQ.2]

section

variable {conditions : List Condition} {declared : Variable} {slots : List Slot}

/-- The slots are those of the conditions, in order. -/
def SlotsOf (declared : Variable) (conditions : List Condition) (slots : List Slot) : Prop :=
  List.Forall₂ (fun condition slot => condition.requirement.slot declared = .ok slot)
    conditions slots

theorem SlotsOf.forall_widen_iff (h : SlotsOf declared conditions slots)
    {P : Condition → Prop} {Q : Slot → Prop}
    (hPQ : ∀ condition ∈ conditions, ∀ slot, condition.requirement.slot declared = .ok slot →
      (P condition ↔ Q slot.widen)) :
    (∀ slot ∈ slots.map Slot.widen, Q slot) ↔ ∀ condition ∈ conditions, P condition := by
  rw [List.forall_mem_map]
  exact (forall_mem_iff_of_forall₂ h hPQ).symm

theorem SlotsOf.forall_widened_ordered (h : SlotsOf declared conditions slots)
    (hordered : ∀ condition ∈ conditions, condition.Ordered) :
    ∀ slot ∈ slots.map Slot.widen, slot.Ordered := by
  refine (h.forall_widen_iff (P := fun _ => True) ?_).mpr fun _ _ => trivial
  intro condition hmem slot hslot
  exact iff_of_true trivial (condition.ordered_widen_of_slot (hordered condition hmem) hslot)

/-- Several widened slots demand something each, and are intersected. -/
theorem SlotsOf.combine?_eq (h : SlotsOf declared conditions slots)
    (hlength : 1 < conditions.length) :
    Slot.combine? slots = Slot.intersectAll? (slots.map Slot.widen) ∧
      1 < (slots.map Slot.widen).length ∧ ∀ slot ∈ slots.map Slot.widen, slot ≠ .missing := by
  have hslots : 1 < slots.length := by rwa [← h.length_eq]
  refine ⟨?_, by rwa [List.length_map], ?_⟩
  · rw [Slot.combine?, if_pos hslots]
  · have htrue : ∀ condition ∈ conditions, True := fun _ _ => trivial
    refine (h.forall_widen_iff fun condition _ slot hslot => ?_).mpr htrue
    refine iff_of_true trivial ?_
    have hmissing := condition.slot_ne_missing hslot
    cases slot with
    | missing => exact absurd rfl hmissing
    | truth relation value => exact nofun
    | range relation region precision =>
        unfold Slot.widen
        split
        · exact nofun
        · exact hmissing

/-- What is kept was made of several slots, or it is the slot of a single condition as it is,
or nothing was said. -/
theorem SlotsOf.combine?_cases (h : SlotsOf declared conditions slots) {slot : Slot}
    (hcombine : Slot.combine? slots = some slot) :
    1 < conditions.length ∨
      (∃ condition, conditions = [condition] ∧ condition.requirement.slot declared = .ok slot) ∨
      slot = .missing := by
  cases h with
  | nil =>
      cases hcombine
      exact .inr (.inr rfl)
  | @cons condition alone rest _ hslot hrest =>
      cases hrest with
      | nil =>
          obtain rfl : alone = slot := by
            simpa [Slot.combine?, Slot.intersectAll?] using hcombine
          exact .inr (.inl ⟨condition, rfl, hslot⟩)
      | cons _ _ => exact .inl (by simp)

/-- What is kept of the slots of some conditions admits exactly the finite values of
which all the conditions hold. -/
theorem SlotsOf.exists_combine?_iff (h : SlotsOf declared conditions slots)
    (hordered : ∀ condition ∈ conditions, condition.Ordered) {value : Value}
    (hvalue : value.IsFinite) :
    (∃ slot, Slot.combine? slots = some slot ∧ slot.Admits value) ↔
      ∀ condition ∈ conditions, condition.Holds value := by
  by_cases hlength : 1 < conditions.length
  · obtain ⟨hcombine, hslots, hmissing⟩ := h.combine?_eq hlength
    have hreads := h.forall_widen_iff (Q := fun slot => slot.Reads value)
      fun condition hmem slot hslot =>
        (condition.widen_reads_iff (hordered condition hmem) hslot hvalue).symm
    have hwidened := h.forall_widened_ordered hordered
    rw [← hreads, ← Slot.exists_intersectAll?_iff hwidened value, hcombine]
    refine exists_congr fun slot => and_congr_right fun hslot => ?_
    exact (Slot.solid_of_intersectAll? hmissing hslots hslot).admits_iff_reads value
  · -- With at most one condition nothing is widened or intersected.
    cases h with
    | nil => simp [Slot.combine?, Slot.intersectAll?, Slot.Admits, Slot.Reads]
    | cons hslot hrest =>
        cases hrest with
        | nil =>
            simp only [List.forall_mem_singleton] at hordered ⊢
            rw [← Condition.slot_admits_iff hordered hslot hvalue]
            simp [Slot.combine?, Slot.intersectAll?]
        | cons _ _ => simp at hlength

/-- Several slots are kept exactly if their widened forms have a value in common. -/
theorem SlotsOf.combine?_isSome_iff_of_several (h : SlotsOf declared conditions slots)
    (hordered : ∀ condition ∈ conditions, condition.Ordered) (hlength : 1 < conditions.length) :
    (Slot.combine? slots).isSome ↔ ∃ value, ∀ slot ∈ slots.map Slot.widen, slot.Reads value := by
  obtain ⟨hcombine, hslots, hmissing⟩ := h.combine?_eq hlength
  have hwidened : ∀ slot ∈ slots.map Slot.widen, slot.Ordered :=
    h.forall_widened_ordered hordered
  rw [hcombine, Option.isSome_iff_exists]
  constructor
  · rintro ⟨slot, hslot⟩
    have hsolid := Slot.solid_of_intersectAll? hmissing hslots hslot
    obtain ⟨value, hvalue⟩ := hsolid.exists_reads
    exact ⟨value, (Slot.exists_intersectAll?_iff hwidened value).mp ⟨slot, hslot, hvalue⟩⟩
  · rintro ⟨value, hvalue⟩
    obtain ⟨slot, hslot, -⟩ := (Slot.exists_intersectAll?_iff hwidened value).mpr hvalue
    exact ⟨slot, hslot⟩

/-- Slots are kept unless something shows that the conditions cannot hold together. -/
theorem SlotsOf.combine?_isSome_iff (h : SlotsOf declared conditions slots)
    (hordered : ∀ condition ∈ conditions, condition.Ordered) :
    (Slot.combine? slots).isSome ↔ Unrefuted conditions := by
  by_cases hlength : 1 < conditions.length
  · rw [h.combine?_isSome_iff_of_several hordered hlength]
    have hfinite {value : Value} (hvalue : value.IsFinite) :=
      h.forall_widen_iff (Q := fun slot => slot.Reads value) fun condition hmem slot hslot =>
        (condition.widen_reads_iff (hordered condition hmem) hslot hvalue).symm
    have hend {x : EReal} (hx : x = ⊥ ∨ x = ⊤) :=
      h.forall_widen_iff (Q := fun slot => slot.Reads (.number x)) fun condition hmem slot hslot =>
        (condition.widen_reads_iff_reachesEnd (hordered condition hmem) hslot hx).symm
    constructor
    · rintro ⟨value, hreads⟩
      -- The common value that intersecting finds need not be finite.
      rcases value.isFinite_or_infinite with hvalue | ⟨x, hx, rfl⟩
      · exact .inl ⟨value, hvalue, (hfinite hvalue).mp hreads⟩
      · exact .inr (.inr ⟨x, hx, (hend hx).mp hreads⟩)
    · rintro (⟨value, hvalue, hholds⟩ | hone | ⟨x, hx, hreaches⟩)
      · exact ⟨value, (hfinite hvalue).mpr hholds⟩
      · omega
      · exact ⟨.number x, (hend hx).mpr hreaches⟩
  · cases h with
    | nil => exact iff_of_true rfl (.inl ⟨.truth true, trivial, nofun⟩)
    | cons hslot hrest =>
        cases hrest with
        | nil =>
            refine iff_of_true ?_ (.inr (.inl rfl))
            simp [Slot.combine?, Slot.intersectAll?]
        | cons _ _ => simp at hlength

end

/-! ## Paths -/

/-- The tuple has one slot for each variable, and the valuation lies in all of
them. -/
def Tuple.Admits (declarations : List Variable) (tuple : Tuple) (valuation : Valuation) : Prop :=
  List.Forall₂ (fun declared slot => Slot.Admits slot (valuation declared.name)) declarations tuple

namespace Path

variable {conditions : List Condition}

theorem slotOf_eq_ok {declared : Variable} {found : Option Slot}
    (h : slotOf (conditions.map Condition.requirement) declared = .ok found) :
    ∃ slots, SlotsOf declared (conditionsOn conditions declared.name) slots ∧
      found = Slot.combine? slots := by
  rw [slotOf, on_map_requirement] at h
  obtain ⟨slots, hslots, h⟩ := bind_eq_ok h
  cases h
  exact ⟨slots, List.forall₂_map_left_iff.mp (mapM_eq_ok_iff.mp hslots), rfl⟩

/-- A tuple begins with what is found for the first variable; if that is nothing, the
other variables are not looked at. -/
theorem tuple_cons_eq_ok {path : Path} {declared : Variable} {rest : List Variable}
    {outcome : Option Tuple} (h : path.tuple (declared :: rest) = .ok outcome) :
    (path.slotOf declared = .ok none ∧ outcome = none) ∨
      ∃ slot others, path.slotOf declared = .ok (some slot) ∧ path.tuple rest = .ok others ∧
        outcome = others.map (slot :: ·) := by
  rw [tuple] at h
  obtain ⟨found, hfirst, h⟩ := bind_eq_ok h
  cases found with
  | none =>
      cases h
      exact .inl ⟨hfirst, rfl⟩
  | some slot =>
      obtain ⟨others, hothers, h⟩ := bind_eq_ok h
      cases h
      exact .inr ⟨slot, others, hfirst, hothers, rfl⟩

theorem ordered_conditionsOn (hordered : ∀ condition ∈ conditions, condition.Ordered)
    (name : String) : ∀ condition ∈ conditionsOn conditions name, condition.Ordered :=
  fun condition hmem => hordered condition (mem_conditionsOn.mp hmem).1

/-- A tuple has one slot for each variable, in order: the one that is found for it. -/
theorem forall₂_slotOf {path : Path} : ∀ {declarations : List Variable} {tuple : Tuple},
    path.tuple declarations = .ok (some tuple) →
      List.Forall₂ (fun declared slot => path.slotOf declared = .ok (some slot))
        declarations tuple
  | [], tuple, h => by
      cases h
      exact .nil
  | declared :: rest, tuple, h => by
      rcases tuple_cons_eq_ok h with ⟨-, hnone⟩ | ⟨slot, others, hfirst, hothers, hsome⟩
      · cases hnone
      · cases others with
        | none => cases hsome
        | some below =>
            cases hsome
            exact .cons hfirst (forall₂_slotOf hothers)

/-- What holds of a variable exactly if a slot with some property is found for it holds of
all variables exactly if there is a tuple of such slots. -/
theorem exists_tuple_iff {path : Path} {P : Variable → Prop} {Q : Variable → Slot → Prop}
    (hfound : ∀ declared found, path.slotOf declared = .ok found →
      ((∃ slot, found = some slot ∧ Q declared slot) ↔ P declared)) :
    ∀ {declarations : List Variable} {outcome : Option Tuple},
      path.tuple declarations = .ok outcome →
        ((∃ tuple, outcome = some tuple ∧ List.Forall₂ Q declarations tuple) ↔
          ∀ declared ∈ declarations, P declared)
  | [], outcome, h => by
      cases h
      simp
  | declared :: rest, outcome, h => by
      rw [List.forall_mem_cons]
      rcases tuple_cons_eq_ok h with ⟨hfirst, rfl⟩ | ⟨slot, others, hfirst, hothers, rfl⟩
      · -- The later variables were not looked at, and need not be: the first one fails.
        rw [← hfound declared none hfirst]
        simp
      · have hrest := exists_tuple_iff hfound hothers
        rw [← hfound declared (some slot) hfirst, ← hrest]
        cases others with
        | none => simp
        | some below => simp

/-- **The tuple of a path says what its conditions say.** -/
theorem tuple_admits_iff (hordered : ∀ condition ∈ conditions, condition.Ordered)
    {valuation : Valuation} (hvaluation : ∀ name, (valuation name).IsFinite)
    {declarations : List Variable} {outcome : Option Tuple}
    (h : tuple (conditions.map Condition.requirement) declarations = .ok outcome) :
    (∃ tuple, outcome = some tuple ∧ tuple.Admits declarations valuation) ↔
      ∀ declared ∈ declarations, ∀ condition ∈ conditionsOn conditions declared.name,
        condition.Holds (valuation declared.name) := by
  refine exists_tuple_iff ?_ h
  intro declared found hfound
  obtain ⟨slots, hslots, rfl⟩ := slotOf_eq_ok hfound
  have hon := ordered_conditionsOn hordered declared.name
  exact hslots.exists_combine?_iff hon (hvaluation declared.name)

/-- A path has a tuple unless something shows of one variable that the conditions on
it cannot hold together. -/
theorem tuple_isSome_iff (hordered : ∀ condition ∈ conditions, condition.Ordered)
    {declarations : List Variable} {outcome : Option Tuple}
    (h : tuple (conditions.map Condition.requirement) declarations = .ok outcome) :
    outcome.isSome ↔
      ∀ declared ∈ declarations, Unrefuted (conditionsOn conditions declared.name) := by
  have hfound (declared : Variable) (found : Option Slot)
      (hslot : slotOf (conditions.map Condition.requirement) declared = .ok found) :
      (∃ slot, found = some slot ∧ True) ↔
        Unrefuted (conditionsOn conditions declared.name) := by
    obtain ⟨slots, hslots, rfl⟩ := slotOf_eq_ok hslot
    have hon := ordered_conditionsOn hordered declared.name
    rw [← hslots.combine?_isSome_iff hon, Option.isSome_iff_exists]
    simp only [and_true]
  rw [← exists_tuple_iff hfound h, Option.isSome_iff_exists]
  constructor
  · rintro ⟨tuple, rfl⟩
    exact ⟨tuple, rfl, (forall₂_slotOf h).imp fun _ _ _ => trivial⟩
  · rintro ⟨tuple, htuple, -⟩
    exact ⟨tuple, htuple⟩

end Path

/-- A path can be satisfied exactly if the conditions on each variable can. -/
theorem exists_satisfies_iff {declarations : List Variable} {conditions : List Condition} :
    (∃ valuation : Valuation, (∀ name, (valuation name).IsFinite) ∧
        Satisfies valuation declarations conditions) ↔
      ∀ declared ∈ declarations, Satisfiable (conditionsOn conditions declared.name) := by
  classical
  constructor
  · rintro ⟨valuation, hfinite, hsatisfies⟩ declared hdeclared
    exact ⟨valuation declared.name, hfinite declared.name,
      satisfies_iff.mp hsatisfies declared hdeclared⟩
  · intro h
    -- Each name has a value of its own, whatever the conditions on the others say.
    have hchoice (name : String) : ∃ value : Value, value.IsFinite ∧
        (Satisfiable (conditionsOn conditions name) →
          ∀ condition ∈ conditionsOn conditions name, condition.Holds value) := by
      by_cases hname : Satisfiable (conditionsOn conditions name)
      · obtain ⟨value, hvalue, hholds⟩ := hname
        exact ⟨value, hvalue, fun _ => hholds⟩
      · exact ⟨.truth true, trivial, fun hsatisfiable => absurd hsatisfiable hname⟩
    choose valuation hfinite hholds using hchoice
    refine ⟨valuation, hfinite, satisfies_iff.mpr ?_⟩
    intro declared hdeclared
    exact hholds declared.name (h declared hdeclared)

end DecisionTuples
