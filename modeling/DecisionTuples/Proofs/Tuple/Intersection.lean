import DecisionTuples.Proofs.Except
import DecisionTuples.Proofs.Interval.Intersection
import DecisionTuples.Proofs.Tuple.Slot

/-!
# The laws of joining slots

What holds of intersecting regions holds of slots, and so of several slots that are
intersected one after the other.

* `Slot.intersect?_assoc`: joining is associative.  So slots may be intersected in
  groups (`Slot.intersectAll?_append`), and what is kept of two groups is the join of
  what is kept of each (`Slot.combine?_append`).
* `Slot.Regular.intersect?_comm`: slots of one variable join to the same slot in either
  order, up to the signs of zeros.  So they may be said in any order
  (`Slot.combine?_perm`).

Grouping has one exception.  An inequality that is alone in its group is not widened: it
stays an open point, which has nothing in common with any region
(`Slot.intersect?_eq_none`).
-/

namespace DecisionTuples

/-- A region all of whose segments are empty has nothing in common with any other. -/
theorem Region.intersect?_eq_none {a b : Region} (ha : a.Ordered) (hb : b.Ordered)
    (h : a.IsEmpty ∨ b.IsEmpty) : a.intersect? b = none := by
  have hnone : Segment.overlaps a.segments b.segments = [] := by
    refine List.eq_nil_iff_forall_not_mem.mpr fun c hc => ?_
    obtain ⟨s, hs, t, ht, hst⟩ := Segment.mem_overlaps.mp hc
    refine (Segment.intersect?_eq_some_iff.mp hst).2 ?_
    rcases h with h | h
    · exact (h s hs).overlap_left (ha s hs) (hb t ht)
    · exact (h t ht).overlap_right (ha s hs) (hb t ht)
  rw [Region.intersect?_eq, hnone]
  rfl

namespace Slot

variable {a b c : Slot}

@[simp] theorem intersect?_missing (slot : Slot) : slot.intersect? missing = some slot := by
  cases slot <;> rfl

theorem range_intersect?_range (relation relation' : Relation) (region region' : Region)
    (precision precision' : Number) :
    (range relation region precision).intersect? (range relation' region' precision') =
      (region.intersect? region').map fun common =>
        range (joinRelation relation relation') common precision := rfl

/-- Two slots can hold together exactly if they join. -/
theorem meets_eq_isSome (a b : Slot) : a.meets b = (a.intersect? b).isSome := by
  cases a <;> cases b <;> simp [meets, intersect?, Region.meets]
  split <;> simp_all

/-! ## Associativity -/

theorem joinRelation_assoc (r s t : Relation) :
    joinRelation (joinRelation r s) t = joinRelation r (joinRelation s t) := by
  unfold joinRelation
  grind

theorem joinRelation_comm (r s : Relation) : joinRelation r s = joinRelation s r := by
  unfold joinRelation
  grind

/-- **Joining slots is associative.** -/
theorem intersect?_assoc (ha : a.Ordered) (hb : b.Ordered) (hc : c.Ordered) :
    ((a.intersect? b).bind fun slot => slot.intersect? c) = (b.intersect? c).bind a.intersect? := by
  cases a with
  | missing => cases hbc : b.intersect? c <;> simp [hbc]
  | truth relation value =>
      cases b with
      | missing => simp
      | truth relation' value' =>
          cases c with
          | missing => by_cases h : value = value' <;> simp [intersect?, h]
          | truth relation'' value'' =>
              by_cases h : value = value' <;> by_cases h' : value' = value'' <;>
                simp_all [intersect?]
          | range relation'' region'' precision'' =>
              by_cases h : value = value' <;> simp [intersect?, h]
      | range relation' region' precision' =>
          cases c with
          | missing => simp [intersect?]
          | truth relation'' value'' => simp [intersect?]
          | range relation'' region'' precision'' =>
              cases h : region'.intersect? region'' <;> simp [intersect?, h]
  | range relation region precision =>
      cases b with
      | missing => simp
      | truth relation' value' =>
          cases c with
          | missing => simp [intersect?]
          | truth relation'' value'' => by_cases h : value' = value'' <;> simp [intersect?, h]
          | range relation'' region'' precision'' => simp [intersect?]
      | range relation' region' precision' =>
          cases c with
          | missing => cases h : region.intersect? region' <;> simp [intersect?, h]
          | truth relation'' value'' =>
              cases h : region.intersect? region' <;> simp [intersect?, h]
          | range relation'' region'' precision'' =>
              have hassoc : ((region.intersect? region').bind fun r => r.intersect? region'') =
                  (region'.intersect? region'').bind region.intersect? :=
                Region.intersect?_assoc ha hb hc
              have hleft : (((range relation region precision).intersect?
                  (range relation' region' precision')).bind fun slot =>
                    slot.intersect? (range relation'' region'' precision'')) =
                  ((region.intersect? region').bind fun r => r.intersect? region'').map fun r =>
                    range (joinRelation (joinRelation relation relation') relation'') r
                      precision := by
                rw [range_intersect?_range, Option.bind_map, Option.map_bind]
                rfl
              rw [hleft, hassoc]
              cases h : region'.intersect? region'' <;> simp [intersect?, h, joinRelation_assoc]

theorem Ordered.foldlM {slots : List Slot} {start : Slot} (hstart : start.Ordered)
    (hslots : ∀ slot ∈ slots, slot.Ordered)
    (h : slots.foldlM Slot.intersect? start = some c) : c.Ordered :=
  foldlM_preserves (fun _ _ _ => Ordered.intersect?) hstart hslots h

theorem Ordered.intersectAll? {slots : List Slot} (h : ∀ slot ∈ slots, slot.Ordered)
    (hc : intersectAll? slots = some c) : c.Ordered := by
  have hstart : missing.Ordered := trivial
  exact hstart.foldlM h hc

/-- Slots may be intersected first, and then with the start. -/
theorem foldlM_eq_bind {slots : List Slot} (hslots : ∀ slot ∈ slots, slot.Ordered) {start : Slot}
    (hstart : start.Ordered) :
    slots.foldlM Slot.intersect? start = (intersectAll? slots).bind start.intersect? := by
  induction slots generalizing start with
  | nil => simp [intersectAll?]
  | cons slot rest ih =>
      obtain ⟨hslot, hrest⟩ := List.forall_mem_cons.mp hslots
      have hall : intersectAll? (slot :: rest) = (intersectAll? rest).bind slot.intersect? := by
        rw [intersectAll?, List.foldlM_cons, missing_intersect?]
        exact ih hrest hslot
      have hstep : (slot :: rest).foldlM Slot.intersect? start =
          (start.intersect? slot).bind fun next => (intersectAll? rest).bind next.intersect? := by
        rw [List.foldlM_cons]
        refine Option.bind_congr fun next hnext => ?_
        exact ih hrest (hstart.intersect? hslot hnext)
      rw [hstep, hall]
      cases hrestAll : intersectAll? rest with
      | none => cases start.intersect? slot <;> simp
      | some found =>
          have hfound : found.Ordered := Ordered.intersectAll? hrest hrestAll
          simpa using intersect?_assoc hstart hslot hfound

theorem intersectAll?_cons {slot : Slot} {slots : List Slot} (hslot : slot.Ordered)
    (hslots : ∀ slot ∈ slots, slot.Ordered) :
    intersectAll? (slot :: slots) = (intersectAll? slots).bind slot.intersect? := by
  rw [intersectAll?, List.foldlM_cons, missing_intersect?]
  exact foldlM_eq_bind hslots hslot

/-- Two groups of slots may be intersected each on its own. -/
theorem intersectAll?_append {slots slots' : List Slot} (h : ∀ slot ∈ slots, slot.Ordered)
    (h' : ∀ slot ∈ slots', slot.Ordered) :
    intersectAll? (slots ++ slots') =
      (intersectAll? slots).bind fun a => (intersectAll? slots').bind a.intersect? := by
  rw [intersectAll?, List.foldlM_append]
  refine Option.bind_congr fun a ha => ?_
  exact foldlM_eq_bind h' (Ordered.intersectAll? h ha)

/-! ## What is kept of several slots -/

/-- What is kept of the slots does not depend on whether they are widened, unless a lone
inequality is among them. -/
theorem combine?_eq_intersectAll? {slots : List Slot}
    (h : ∀ region precision, slots ≠ [range (.compares .notEqual) region precision]) :
    combine? slots = intersectAll? (slots.map widen) := by
  match slots with
  | [] => rfl
  | [slot] =>
      have hwiden : slot.widen = slot := by
        unfold widen
        split
        · next region precision => exact absurd rfl (h region precision)
        · rfl
      simp [combine?, hwiden]
  | first :: second :: rest => simp [combine?]

/-- What is said in two places about a variable is the join of what is said in each,
unless one of them is a lone inequality and the other one says something as well. -/
theorem combine?_append {slots slots' : List Slot} (h : ∀ slot ∈ slots, slot.widen.Ordered)
    (h' : ∀ slot ∈ slots', slot.widen.Ordered)
    (hlone : slots = [] ∨ slots' = [] ∨ ∀ region precision,
      slots ≠ [range (.compares .notEqual) region precision] ∧
        slots' ≠ [range (.compares .notEqual) region precision]) :
    combine? (slots ++ slots') =
      (combine? slots).bind fun a => (combine? slots').bind a.intersect? := by
  have hempty : combine? [] = some missing := rfl
  rcases hlone with rfl | rfl | hlone
  · cases hcombine : combine? slots' <;> simp [hempty, hcombine]
  · cases hcombine : combine? slots <;> simp [hempty, hcombine]
  · rw [combine?_eq_intersectAll? fun region precision => (hlone region precision).1,
      combine?_eq_intersectAll? fun region precision => (hlone region precision).2,
      ← intersectAll?_append (List.forall_mem_map.mpr h) (List.forall_mem_map.mpr h'),
      ← List.map_append]
    refine combine?_eq_intersectAll? fun region precision heq => ?_
    rcases List.append_eq_singleton_iff.mp heq with ⟨-, heq⟩ | ⟨heq, -⟩
    · exact (hlone region precision).2 heq
    · exact (hlone region precision).1 heq

/-- The region of the slot has no points of its own. -/
def IsEmpty : Slot → Prop
  | range _ region _ => region.IsEmpty
  | _ => False

/-- A slot without points of its own joins with no slot that demands something. -/
theorem intersect?_eq_none (ha : a.Ordered) (hb : b.Ordered) (hmissing : a ≠ missing)
    (hmissing' : b ≠ missing) (h : a.IsEmpty ∨ b.IsEmpty) : a.intersect? b = none := by
  cases a with
  | missing => exact absurd rfl hmissing
  | truth relation value =>
      cases b with
      | missing => exact absurd rfl hmissing'
      | truth relation' value' => exact (h.elim id id).elim
      | range relation' region' precision' => rfl
  | range relation region precision =>
      cases b with
      | missing => exact absurd rfl hmissing'
      | truth relation' value' => rfl
      | range relation' region' precision' =>
          rw [range_intersect?_range, Region.intersect?_eq_none ha hb h]
          rfl

theorem eq_missing_of_intersect? (h : a.intersect? b = some missing) :
    a = missing ∧ b = missing := by
  cases joins_of_intersect? h with
  | missing_left => exact ⟨rfl, rfl⟩
  | missing_right => exact ⟨rfl, rfl⟩

theorem eq_missing_of_foldlM : ∀ {slots : List Slot} {start : Slot},
    slots.foldlM Slot.intersect? start = some missing →
      start = missing ∧ ∀ slot ∈ slots, slot = missing
  | [], start, h => by
      cases h
      simp
  | slot :: rest, start, h => by
      obtain ⟨next, hnext, hrest⟩ := Option.bind_eq_some_iff.mp h
      obtain ⟨rfl, hslots⟩ := eq_missing_of_foldlM hrest
      obtain ⟨hstart, hslot⟩ := eq_missing_of_intersect? hnext
      exact ⟨hstart, List.forall_mem_cons.mpr ⟨hslot, hslots⟩⟩

theorem widen_eq_missing_iff {slot : Slot} : slot.widen = missing ↔ slot = missing := by
  unfold widen
  split <;> simp

/-- Where nothing is demanded in the end, nothing was said. -/
theorem eq_missing_of_combine? {slots : List Slot} (h : combine? slots = some missing) :
    ∀ slot ∈ slots, slot = missing := by
  intro slot hslot
  unfold combine? at h
  split at h
  · exact widen_eq_missing_iff.mp ((eq_missing_of_foldlM h).2 _ (List.mem_map_of_mem hslot))
  · exact (eq_missing_of_foldlM h).2 slot hslot

/-! ## Commutativity -/

/-- The slot with the signs of zeros dropped. -/
def normal : Slot → Slot
  | range relation region precision => range relation region.normal precision.normal
  | slot => slot

/-- Intersecting looks at the values of bounds only. -/
theorem intersect?_normal (a b : Slot) :
    a.normal.intersect? b.normal = (a.intersect? b).map normal := by
  cases a with
  | missing => simp [normal]
  | truth relation value =>
      cases b with
      | missing => rfl
      | truth relation' value' => by_cases h : value = value' <;> simp [normal, intersect?, h]
      | range relation' region' precision' => rfl
  | range relation region precision =>
      cases b with
      | missing => rfl
      | truth relation' value' => rfl
      | range relation' region' precision' =>
          simp only [normal, range_intersect?_range, Region.intersect?_normal, Option.map_map]
          rfl

/-- The slot can be said of a variable of the given type: a truth value stands under its
own relation, and a region has the declared precision and its segments in order. -/
def Regular (type : ValueType) : Slot → Prop
  | missing => True
  | truth relation value => relation = .holds value
  | range _ region precision =>
    type.precision? = some precision ∧ region.Ordered ∧ region.Sorted

variable {type : ValueType}

theorem Regular.ordered {slot : Slot} (h : slot.Regular type) : slot.Ordered := by
  cases slot with
  | missing => trivial
  | truth relation value => trivial
  | range relation region precision => exact h.2.1

/-- **Slots of one variable join in either order**, up to the signs of zeros. -/
theorem Regular.intersect?_comm (ha : a.Regular type) (hb : b.Regular type) :
    (a.intersect? b).map normal = (b.intersect? a).map normal := by
  cases a with
  | missing => simp
  | truth relation value =>
      cases b with
      | missing => simp
      | truth relation' value' =>
          obtain rfl : relation = .holds value := ha
          obtain rfl : relation' = .holds value' := hb
          by_cases h : value = value'
          · simp [h]
          · simp [intersect?, h, Ne.symm h]
      | range relation' region' precision' => rfl
  | range relation region precision =>
      cases b with
      | missing => simp
      | truth relation' value' => rfl
      | range relation' region' precision' =>
          obtain ⟨hprecision, hordered, hsorted⟩ := ha
          obtain ⟨hprecision', hordered', hsorted'⟩ := hb
          obtain rfl : precision = precision' :=
            Option.some_inj.mp (hprecision.symm.trans hprecision')
          have hcomm := Region.intersect?_comm hordered hordered' hsorted hsorted'
          -- Dropping signs first leaves a function of the region without signs.
          have hnormal (relation relation' : Relation) (common : Option Region) :
              (common.map fun c => range (joinRelation relation relation') c precision).map normal =
                (common.map Region.normal).map fun c =>
                  range (joinRelation relation relation') c precision.normal := by
            cases common <;> rfl
          rw [range_intersect?_range, range_intersect?_range, hnormal, hnormal, hcomm,
            joinRelation_comm]

theorem Regular.intersect? (ha : a.Regular type) (hb : b.Regular type)
    (h : a.intersect? b = some c) : c.Regular type := by
  cases joins_of_intersect? h with
  | missing_left => exact hb
  | missing_right => exact ha
  | truth => exact ha
  | range _ _ _ _ hcommon =>
      obtain ⟨hprecision, hordered, hsorted⟩ := ha
      obtain ⟨-, hordered', hsorted'⟩ := hb
      exact ⟨hprecision, hordered.intersect? hordered' hcommon,
        hsorted.intersect? hordered hordered' hsorted' hcommon⟩

theorem Regular.foldlM {slots : List Slot} {start : Slot} (hstart : start.Regular type)
    (hslots : ∀ slot ∈ slots, slot.Regular type)
    (h : slots.foldlM Slot.intersect? start = some c) : c.Regular type :=
  foldlM_preserves (fun _ _ _ => Regular.intersect?) hstart hslots h

/-- What is joined to a slot may itself be taken without the signs of zeros. -/
theorem map_normal_bind_intersect? (slot : Slot) (found : Option Slot) :
    (found.bind slot.intersect?).map normal =
      (found.map normal).bind slot.normal.intersect? := by
  cases found with
  | none => rfl
  | some next => exact (intersect?_normal slot next).symm

/-- The order in which slots of one variable are intersected does not matter. -/
theorem intersectAll?_perm {slots slots' : List Slot} (hperm : slots.Perm slots')
    (h : ∀ slot ∈ slots, slot.Regular type) :
    (intersectAll? slots).map normal = (intersectAll? slots').map normal := by
  induction hperm with
  | nil => rfl
  | @cons slot slots slots' hperm ih =>
      obtain ⟨hslot, hslots⟩ := List.forall_mem_cons.mp h
      have hslots' : ∀ slot ∈ slots', slot.Ordered := fun slot hmem =>
        (hslots slot (hperm.mem_iff.mpr hmem)).ordered
      rw [intersectAll?_cons hslot.ordered fun slot hmem => (hslots slot hmem).ordered,
        intersectAll?_cons hslot.ordered hslots', map_normal_bind_intersect?,
        map_normal_bind_intersect?, ih hslots]
  | swap first second slots =>
      simp only [List.forall_mem_cons] at h
      obtain ⟨hsecond, hfirst, hslots⟩ := h
      have hordered : ∀ slot ∈ slots, slot.Ordered := fun slot hmem => (hslots slot hmem).ordered
      -- The two slots in front are joined with each other first.
      have hfront {first second : Slot} (hfirst : first.Regular type)
          (hsecond : second.Regular type) :
          (intersectAll? (second :: first :: slots)).map normal =
            ((second.intersect? first).map normal).bind fun pair =>
              ((intersectAll? slots).map normal).bind pair.intersect? := by
        have hrest := List.forall_mem_cons.mpr ⟨hfirst.ordered, hordered⟩
        rw [intersectAll?_cons hsecond.ordered hrest, intersectAll?_cons hfirst.ordered hordered]
        cases hrest : intersectAll? slots with
        | none => cases second.intersect? first <;> rfl
        | some rest =>
            have hrestOrdered : rest.Ordered := Ordered.intersectAll? hordered hrest
            rw [Option.bind_some, ← intersect?_assoc hsecond.ordered hfirst.ordered hrestOrdered]
            cases second.intersect? first with
            | none => rfl
            | some pair => exact (intersect?_normal pair rest).symm
      rw [hfront hfirst hsecond, hfront hsecond hfirst, hfirst.intersect?_comm hsecond]
  | trans hperm _ ih ih' =>
      exact (ih h).trans (ih' fun slot hmem => h slot (hperm.mem_iff.mpr hmem))

/-- The order of what is said about a variable does not matter. -/
theorem combine?_perm {slots slots' : List Slot} (hperm : slots.Perm slots')
    (h : ∀ slot ∈ slots, slot.widen.Regular type) :
    (combine? slots).map normal = (combine? slots').map normal := by
  by_cases hlength : 1 < slots.length
  · rw [combine?, combine?, if_pos hlength, if_pos (hperm.length_eq ▸ hlength)]
    exact intersectAll?_perm (hperm.map widen) (List.forall_mem_map.mpr h)
  · -- A list of at most one element has no other order.
    match slots with
    | [] => rw [List.nil_perm.mp hperm]
    | [slot] => rw [List.singleton_perm.mp hperm]
    | first :: second :: rest => simp at hlength

theorem combine?_regular {slots : List Slot} (h : ∀ slot ∈ slots, slot.Regular type)
    (hwiden : ∀ slot ∈ slots, slot.widen.Regular type) {c : Slot} (hc : combine? slots = some c) :
    c.Regular type :=
  combine?_preserves (fun _ _ _ => Regular.intersect?) trivial h hwiden hc

/-- Equality of values is equality, once the signs of zeros are dropped. -/
theorem Regular.beq_iff_normal_eq (htype : type.precision? ≠ some .nan) (ha : a.Regular type) :
    (a == b) = true ↔ a.normal = b.normal := by
  cases a with
  | missing => cases b <;> simp [BEq.beq, normal]
  | truth relation value => cases b <;> simp [BEq.beq, normal]
  | range relation region precision =>
      cases b with
      | missing => simp [BEq.beq, normal]
      | truth relation' value' => simp [BEq.beq, normal]
      | range relation' region' precision' =>
          obtain ⟨hprecision, hordered, -⟩ := ha
          have hnan : precision ≠ .nan := fun heq => htype (heq ▸ hprecision)
          change (decide (relation = relation') && region == region' &&
            precision == precision') = true ↔ _
          simp [Region.beq_iff_normal_eq hordered, Number.beq_iff_normal_eq hnan, normal, and_assoc]

end Slot

/-! ## Requirements -/

/-- What is required of a number can be said of it: the region is in order, and one under
an inequality has no points of its own. -/
def Requirement.Regular : Requirement → Prop
  | truth _ _ _ => True
  | membership _ relation region =>
    region.Ordered ∧ region.Sorted ∧ (relation = .compares .notEqual → region.IsEmpty)

theorem Requirement.Regular.slot {requirement : Requirement} {declared : Variable} {slot : Slot}
    (h : requirement.Regular) (hslot : requirement.slot declared = .ok slot) :
    slot.Regular declared.type ∧ slot.widen.Regular declared.type := by
  obtain ⟨declaredName, type⟩ := declared
  cases requirement with
  | truth name value relation =>
      cases type with
      | bool =>
          cases hslot
          exact ⟨rfl, rfl⟩
      | number precision => cases hslot
  | membership name relation region =>
      cases type with
      | bool => cases hslot
      | number precision =>
          cases hslot
          obtain ⟨hordered, hsorted, -⟩ := h
          refine ⟨⟨rfl, hordered, hsorted⟩, ?_⟩
          unfold Slot.widen
          split
          · next hrange =>
              cases hrange
              have hbound := (hordered region.first List.mem_cons_self).1
              exact ⟨rfl, Region.ordered_excluding hbound, Region.sorted_excluding _⟩
          · exact ⟨rfl, hordered, hsorted⟩

theorem Requirement.slot_ne_missing {requirement : Requirement} {declared : Variable} {slot : Slot}
    (hslot : requirement.slot declared = .ok slot) : slot ≠ .missing := by
  obtain ⟨declaredName, type⟩ := declared
  cases requirement <;> cases type <;> cases hslot <;> exact nofun

/-- A condition without `nan` comes to a requirement that can be said of a variable. -/
theorem Condition.regular_requirement {condition : Condition} (h : condition.Ordered) :
    condition.requirement.Regular := by
  cases condition with
  | truth name equality value => trivial
  | membership name interval openness =>
      exact ⟨Region.ordered_single h, Region.sorted_single _ _, nofun⟩
  | comparison name side constant written =>
      refine ⟨Region.ordered_solutions _ h, ?_, ?_⟩
      · cases facingRight side written <;> exact Region.sorted_single _ _
      · intro hrelation
        rw [Relation.compares.inj hrelation]
        intro segment hsegment
        obtain rfl := List.mem_singleton.mp hsegment
        exact .inr (.inr (.inr ⟨(Number.beq_iff_normal_eq h).mpr rfl, .inl rfl⟩))

/-! ## What a path says of one variable -/

namespace Path

variable {path : Path} {declared : Variable} {slots : List Slot}

theorem slotOf_eq_ok_iff {found : Option Slot} :
    path.slotOf declared = .ok found ↔ ∃ slots,
      (path.on declared.name).mapM (Requirement.slot declared) = .ok slots ∧
        found = Slot.combine? slots := by
  constructor
  · intro h
    obtain ⟨slots, hslots, h⟩ := bind_eq_ok h
    cases h
    exact ⟨slots, hslots, rfl⟩
  · rintro ⟨slots, hslots, rfl⟩
    rw [slotOf, hslots]
    rfl

/-- The slots of regular requirements can be said of the variable, widened or not, and
each of them demands something. -/
theorem regular_of_mapM (hregular : ∀ requirement ∈ path, requirement.Regular)
    (h : (path.on declared.name).mapM (Requirement.slot declared) = .ok slots) :
    ∀ slot ∈ slots, slot ≠ .missing ∧ slot.Regular declared.type ∧
      slot.widen.Regular declared.type := by
  intro slot hslot
  obtain ⟨requirement, hmem, hrequirement⟩ :=
    exists_mem_of_forall₂ (mapM_eq_ok_iff.mp h).flip hslot
  have hpath : requirement ∈ path := (List.mem_filter.mp hmem).1
  exact ⟨Requirement.slot_ne_missing hrequirement, (hregular requirement hpath).slot hrequirement⟩

/-- What is kept on a path for a variable can be said of it. -/
theorem regular_of_slotOf (hregular : ∀ requirement ∈ path, requirement.Regular)
    {slot : Slot} (h : path.slotOf declared = .ok (some slot)) : slot.Regular declared.type := by
  obtain ⟨slots, hslots, hcombine⟩ := slotOf_eq_ok_iff.mp h
  have hall := regular_of_mapM hregular hslots
  exact Slot.combine?_regular (fun slot hslot => (hall slot hslot).2.1)
    (fun slot hslot => (hall slot hslot).2.2) hcombine.symm

end Path

end DecisionTuples
