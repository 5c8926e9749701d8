import DecisionTuples.Proofs.Tuple.Intersection
import DecisionTuples.Proofs.Tuple.OfPath

/-!
# Joining tuples is taking paths together

Two paths of one feature can be taken together by appending one to the other, and their
tuples can be joined slot by slot.  Both ways lead to the same tuple
(`Path.tuple_append`), with one exception.

Two paths *clash* on a variable if one of them says nothing about it but an inequality,
and the other one says something about it as well.  On the path alone the inequality is
kept as an open point, which joins with nothing (`Path.intersect?_eq_none_of_clash`); on
the paths taken together it is widened to every number but the point.  So clashing
tuples never meet, although their paths may well hold together.  `Path.meets_iff` says
what meeting of tuples comes to.
-/

namespace DecisionTuples

/-- Two tuples meet exactly if they join. -/
theorem Tuple.meets_eq_isSome : ∀ a b : Tuple, a.meets b = (a.intersect? b).isSome
  | [], [] => rfl
  | [], _ :: _ => rfl
  | _ :: _, [] => rfl
  | a :: as, b :: bs => by
      rw [Tuple.meets, Tuple.intersect?, Slot.meets_eq_isSome, Tuple.meets_eq_isSome as bs]
      cases a.intersect? b <;> cases Tuple.intersect? as bs <;> rfl

namespace Path

variable {p q : Path} {declared : Variable} {declarations : List Variable}

/-- All that the path says about the name is a single inequality. -/
def Lone (path : Path) (name : String) : Prop :=
  ∃ region, path.on name = [.membership name (.compares .notEqual) region]

/-- One path says nothing about the name but an inequality, and the other one says
something about it as well. -/
def ClashOn (p q : Path) (name : String) : Prop :=
  (p.Lone name ∧ q.on name ≠ []) ∨ (q.Lone name ∧ p.on name ≠ [])

/-- The paths clash on some declared variable. -/
def Clash (p q : Path) (declarations : List Variable) : Prop :=
  ∃ declared ∈ declarations, p.ClashOn q declared.name

theorem on_append (p q : Path) (name : String) : (p ++ q).on name = p.on name ++ q.on name :=
  List.filter_append _ _

/-! ## One variable -/

section

/-- A lone inequality is the only requirement that has a slot under an inequality. -/
theorem lone_of_mapM {path : Path} {region : Region} {precision : Number}
    (h : (path.on declared.name).mapM (Requirement.slot declared) =
      .ok [.range (.compares .notEqual) region precision]) : path.Lone declared.name := by
  obtain ⟨requirement, rest, hslot, hrest, hon⟩ :=
    List.forall₂_cons_right_iff.mp (mapM_eq_ok_iff.mp h)
  obtain rfl := List.forall₂_nil_right_iff.mp hrest
  have hmem : requirement ∈ path.on declared.name := by simp [hon]
  have hname : requirement.name = declared.name := by
    simpa using (List.mem_filter.mp hmem).2
  obtain ⟨declaredName, type⟩ := declared
  cases requirement with
  | truth name value relation => cases type <;> cases hslot
  | membership name relation region' =>
      cases type with
      | bool => cases hslot
      | number precision' =>
          cases hslot
          obtain rfl : name = declaredName := hname
          exact ⟨region, hon⟩

/-- A lone inequality is kept as a slot without points of its own. -/
theorem Lone.isEmpty {path : Path} (h : path.Lone declared.name)
    (hregular : ∀ requirement ∈ path, requirement.Regular) {slot : Slot}
    (hslot : path.slotOf declared = .ok (some slot)) : slot.IsEmpty ∧ slot ≠ .missing := by
  obtain ⟨region, hon⟩ := h
  have hmem : Requirement.membership declared.name (.compares .notEqual) region ∈ path := by
    have hmem : Requirement.membership declared.name (.compares .notEqual) region ∈
        path.on declared.name := by simp [hon]
    exact (List.mem_filter.mp hmem).1
  obtain ⟨slots, hslots, hcombine⟩ := slotOf_eq_ok_iff.mp hslot
  obtain ⟨declaredName, type⟩ := declared
  rw [hon] at hslots
  cases type with
  | bool => cases hslots
  | number precision =>
      cases hslots
      cases hcombine
      exact ⟨(hregular _ hmem).2.2 rfl, nofun⟩

end

/-- A path has a tuple if each variable has a slot. -/
theorem tuple_of_forall₂_slotOf {path : Path} {declarations : List Variable} {tuple : Tuple}
    (h : List.Forall₂ (fun declared slot => path.slotOf declared = .ok (some slot))
      declarations tuple) : path.tuple declarations = .ok (some tuple) := by
  induction h with
  | nil => rfl
  | cons hslot _ ih =>
      rw [Path.tuple, hslot]
      change (do
        let others ← path.tuple _
        return others.map (_ :: ·)) = _
      rw [ih]
      rfl

variable (hp : ∀ requirement ∈ p, requirement.Regular)
  (hq : ∀ requirement ∈ q, requirement.Regular)

include hp hq

/-- Without a clash, what is kept on two paths taken together is the join of what is kept
on each. -/
theorem slotOf_append {a b : Slot} (ha : p.slotOf declared = .ok (some a))
    (hb : q.slotOf declared = .ok (some b)) (hclash : ¬ p.ClashOn q declared.name) :
    (p ++ q).slotOf declared = .ok (a.intersect? b) := by
  obtain ⟨slots, hslots, hcombine⟩ := slotOf_eq_ok_iff.mp ha
  obtain ⟨slots', hslots', hcombine'⟩ := slotOf_eq_ok_iff.mp hb
  have hordered : ∀ slot ∈ slots, slot.widen.Ordered := fun slot hslot =>
    (regular_of_mapM hp hslots slot hslot).2.2.ordered
  have hordered' : ∀ slot ∈ slots', slot.widen.Ordered := fun slot hslot =>
    (regular_of_mapM hq hslots' slot hslot).2.2.ordered
  have hnil {path : Path} {slots : List Slot} (hon : path.on declared.name = [])
      (h : (path.on declared.name).mapM (Requirement.slot declared) = .ok slots) :
      slots = [] := by
    rw [hon] at h
    cases h
    rfl
  have hlone : slots = [] ∨ slots' = [] ∨ ∀ region precision,
      slots ≠ [.range (.compares .notEqual) region precision] ∧
        slots' ≠ [.range (.compares .notEqual) region precision] := by
    by_cases hpon : p.on declared.name = []
    · exact .inl (hnil hpon hslots)
    · by_cases hqon : q.on declared.name = []
      · exact .inr (.inl (hnil hqon hslots'))
      · refine .inr (.inr fun region precision => ⟨?_, ?_⟩)
        · rintro rfl
          exact hclash (.inl ⟨lone_of_mapM hslots, hqon⟩)
        · rintro rfl
          exact hclash (.inr ⟨lone_of_mapM hslots', hpon⟩)
  have hmapM : ((p ++ q).on declared.name).mapM (Requirement.slot declared) =
      .ok (slots ++ slots') := by
    rw [on_append, List.mapM_append, hslots, hslots']
    rfl
  refine slotOf_eq_ok_iff.mpr ⟨slots ++ slots', hmapM, ?_⟩
  rw [Slot.combine?_append hordered hordered' hlone, ← hcombine, ← hcombine']
  rfl

/-- A clash leaves nothing to join. -/
theorem intersect?_eq_none_of_clashOn {a b : Slot} (ha : p.slotOf declared = .ok (some a))
    (hb : q.slotOf declared = .ok (some b)) (hclash : p.ClashOn q declared.name) :
    a.intersect? b = none := by
  have hmissing {path : Path} (hregular : ∀ requirement ∈ path, requirement.Regular) {slot : Slot}
      (hslot : path.slotOf declared = .ok (some slot)) (hon : path.on declared.name ≠ []) :
      slot ≠ .missing := by
    rintro rfl
    obtain ⟨slots, hslots, hcombine⟩ := slotOf_eq_ok_iff.mp hslot
    obtain ⟨requirement, hrequirement⟩ := List.exists_mem_of_ne_nil _ hon
    obtain ⟨said, hsaid, -⟩ := exists_mem_of_forall₂ (mapM_eq_ok_iff.mp hslots) hrequirement
    exact (regular_of_mapM hregular hslots said hsaid).1
      (Slot.eq_missing_of_combine? hcombine.symm said hsaid)
  have hordered := (regular_of_slotOf hp ha).ordered
  have hordered' := (regular_of_slotOf hq hb).ordered
  rcases hclash with ⟨hlone, hon⟩ | ⟨hlone, hon⟩
  · obtain ⟨hempty, hsome⟩ := hlone.isEmpty hp ha
    exact Slot.intersect?_eq_none hordered hordered' hsome (hmissing hq hb hon) (.inl hempty)
  · obtain ⟨hempty, hsome⟩ := hlone.isEmpty hq hb
    exact Slot.intersect?_eq_none hordered hordered' (hmissing hp ha hon) hsome (.inr hempty)

/-! ## All variables -/

/-- **Without a clash, the tuple of two paths taken together is the join of their
tuples**, and there is one if the other exists. -/
theorem tuple_append : ∀ {declarations : List Variable} {a b : Tuple},
    p.tuple declarations = .ok (some a) → q.tuple declarations = .ok (some b) →
      ¬ p.Clash q declarations → (p ++ q).tuple declarations = .ok (Tuple.intersect? a b)
  | [], a, b, ha, hb, _ => by
      cases ha
      cases hb
      rfl
  | declared :: rest, a, b, ha, hb, hclash => by
      obtain ⟨slot, others, hslot, hothers, rfl⟩ :=
        List.forall₂_cons_left_iff.mp (forall₂_slotOf ha)
      obtain ⟨slot', others', hslot', hothers', rfl⟩ :=
        List.forall₂_cons_left_iff.mp (forall₂_slotOf hb)
      have hfirst : ¬ p.ClashOn q declared.name := fun h =>
        hclash ⟨declared, List.mem_cons_self, h⟩
      have hrest : ¬ p.Clash q rest := fun ⟨other, hother, h⟩ =>
        hclash ⟨other, List.mem_cons_of_mem _ hother, h⟩
      have htogether := slotOf_append hp hq hslot hslot' hfirst
      rw [tuple, htogether, Tuple.intersect?]
      cases slot.intersect? slot' with
      | none => rfl
      | some common =>
          have htail := tuple_append (tuple_of_forall₂_slotOf hothers)
            (tuple_of_forall₂_slotOf hothers') hrest
          change (do
            let found ← (p ++ q).tuple rest
            return found.map (common :: ·)) = _
          rw [htail]
          cases Tuple.intersect? others others' <;> rfl

/-- A clash on any variable leaves nothing to join. -/
theorem intersect?_eq_none_of_clash {a b : Tuple} (ha : p.tuple declarations = .ok (some a))
    (hb : q.tuple declarations = .ok (some b)) (hclash : p.Clash q declarations) :
    Tuple.intersect? a b = none := by
  obtain ⟨declared, hdeclared, hclash⟩ := hclash
  have hslots := forall₂_slotOf ha
  have hslots' := forall₂_slotOf hb
  clear ha hb
  induction hslots generalizing b with
  | nil => cases hdeclared
  | @cons first slot rest others hslot hothers ih =>
      obtain ⟨slot', others', hslot', hothers', rfl⟩ := List.forall₂_cons_left_iff.mp hslots'
      rcases List.mem_cons.mp hdeclared with rfl | hdeclared
      · rw [Tuple.intersect?, intersect?_eq_none_of_clashOn hp hq hslot hslot' hclash]
        rfl
      · rw [Tuple.intersect?, ih hdeclared hothers']
        cases slot.intersect? slot' <;> rfl

/-- **When tuples meet.**  Two tuples meet exactly if the paths have a tuple when they are
taken together and do not clash, and then joining gives just that tuple. -/
theorem meets_iff {a b : Tuple} (ha : p.tuple declarations = .ok (some a))
    (hb : q.tuple declarations = .ok (some b)) :
    (a.meets b = true ↔ (∃ c, (p ++ q).tuple declarations = .ok (some c)) ∧
        ¬ p.Clash q declarations) ∧
      (a.meets b = true → ∃ c, a.intersect? b = some c ∧
        (p ++ q).tuple declarations = .ok (some c)) := by
  rw [Tuple.meets_eq_isSome, Option.isSome_iff_exists]
  by_cases hclash : p.Clash q declarations
  · simp [intersect?_eq_none_of_clash hp hq ha hb hclash, hclash]
  · have htogether := tuple_append hp hq ha hb hclash
    cases hjoin : Tuple.intersect? a b with
    | none => simp [htogether, hjoin]
    | some c => simp [htogether, hjoin, hclash]

end Path
end DecisionTuples
