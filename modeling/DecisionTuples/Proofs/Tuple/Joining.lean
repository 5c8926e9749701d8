import DecisionTuples.Proofs.Tuple.Reordering
import Mathlib.Data.Option.NAry

/-!
# The laws of joining tuples

Tuples are joined slot by slot, so the laws of slots are laws of tuples: joining is
associative (`Tuple.intersect?_assoc`), and tuples over the same declarations join to the
same tuple in either order (`Tuple.Regular.intersect?_comm`).  The first law keeps the signs
of zeros, the second one does not, because of two equal bounds the one of the first tuple
is kept.

A tuple that is missing stays missing in both laws: three tuples of which two cannot hold
together have no join in any order.
-/

namespace DecisionTuples
namespace Tuple

variable {declarations : List Variable} {a b c : Tuple}

/-- The first slots and the others are joined apart from each other. -/
theorem intersect?_cons (a b : Slot) (as bs : Tuple) :
    Tuple.intersect? (a :: as) (b :: bs) =
      Option.map₂ List.cons (a.intersect? b) (Tuple.intersect? as bs) := by
  rw [Tuple.intersect?]
  cases a.intersect? b <;> cases Tuple.intersect? as bs <;> rfl

/-- A join goes on in the first slots and in the others. -/
theorem bind_intersect?_cons (slot : Option Slot) (rest : Option Tuple) (c : Slot) (cs : Tuple) :
    ((Option.map₂ List.cons slot rest).bind fun both => Tuple.intersect? both (c :: cs)) =
      Option.map₂ List.cons (slot.bind fun s => s.intersect? c)
        (rest.bind fun others => Tuple.intersect? others cs) := by
  cases slot with
  | none => rfl
  | some s =>
      cases rest with
      | none => simp
      | some others => exact intersect?_cons s c others cs

theorem intersect?_cons_bind (a : Slot) (as : Tuple) (slot : Option Slot) (rest : Option Tuple) :
    ((Option.map₂ List.cons slot rest).bind fun both => Tuple.intersect? (a :: as) both) =
      Option.map₂ List.cons (slot.bind a.intersect?) (rest.bind fun others =>
        Tuple.intersect? as others) := by
  cases slot with
  | none => rfl
  | some s =>
      cases rest with
      | none => simp
      | some others => exact intersect?_cons a s as others

/-! ## Associativity -/

/-- **Joining tuples is associative.** -/
theorem intersect?_assoc : ∀ {a b c : Tuple}, (∀ slot ∈ a, slot.Ordered) →
    (∀ slot ∈ b, slot.Ordered) → (∀ slot ∈ c, slot.Ordered) →
      ((Tuple.intersect? a b).bind fun both => Tuple.intersect? both c) =
        (Tuple.intersect? b c).bind fun both => Tuple.intersect? a both
  | [], [], c, _, _, _ => by cases c <;> rfl
  | [], _ :: _, [], _, _, _ => rfl
  | [], b :: bs, c :: cs, _, _, _ => by
      rw [intersect?_cons]
      cases b.intersect? c <;> cases Tuple.intersect? bs cs <;> rfl
  | _ :: _, [], c, _, _, _ => by cases c <;> rfl
  | a :: as, b :: bs, [], _, _, _ => by
      rw [intersect?_cons]
      cases a.intersect? b <;> cases Tuple.intersect? as bs <;> rfl
  | a :: as, b :: bs, c :: cs, ha, hb, hc => by
      obtain ⟨hfirst, hrest⟩ := List.forall_mem_cons.mp ha
      obtain ⟨hfirst', hrest'⟩ := List.forall_mem_cons.mp hb
      obtain ⟨hfirst'', hrest''⟩ := List.forall_mem_cons.mp hc
      rw [intersect?_cons, intersect?_cons, bind_intersect?_cons, intersect?_cons_bind,
        Slot.intersect?_assoc hfirst hfirst' hfirst'', intersect?_assoc hrest hrest' hrest'']

/-! ## Commutativity -/

/-- Every slot can be said of the variable at its position. -/
def Regular (declarations : List Variable) (tuple : Tuple) : Prop :=
  List.Forall₂ (fun declared slot => Slot.Regular declared.type slot) declarations tuple

theorem Regular.ordered (h : a.Regular declarations) : ∀ slot ∈ a, slot.Ordered := by
  intro slot hslot
  obtain ⟨declared, -, hregular⟩ := exists_mem_of_forall₂ h.flip hslot
  exact Slot.Regular.ordered hregular

theorem Regular.intersect? (ha : a.Regular declarations) (hb : b.Regular declarations)
    (h : a.intersect? b = some c) : c.Regular declarations := by
  induction ha generalizing b c with
  | nil =>
      cases hb
      cases h
      exact .nil
  | cons hslot _ ih =>
      cases hb with
      | cons hslot' hrest' =>
          rw [intersect?_cons, Option.map₂_eq_some_iff] at h
          obtain ⟨slot, rest, hjoin, hothers, rfl⟩ := h
          exact .cons (hslot.intersect? hslot' hjoin) (ih hrest' hothers)

/-- **Tuples over the same declarations join in either order**, up to the signs of
zeros. -/
theorem Regular.intersect?_comm (ha : a.Regular declarations) (hb : b.Regular declarations) :
    (a.intersect? b).map (List.map Slot.normal) = (b.intersect? a).map (List.map Slot.normal) := by
  induction ha generalizing b with
  | nil =>
      cases hb
      rfl
  | cons hslot _ ih =>
      cases hb with
      | cons hslot' hrest' =>
          -- Dropping signs first leaves a function of the parts without signs.
          have hnormal (slot : Option Slot) (rest : Option Tuple) :
              (Option.map₂ List.cons slot rest).map (List.map Slot.normal) =
                Option.map₂ List.cons (slot.map Slot.normal)
                  (rest.map (List.map Slot.normal)) := by
            cases slot <;> cases rest <;> rfl
          rw [intersect?_cons, intersect?_cons, hnormal, hnormal, hslot.intersect?_comm hslot',
            ih hrest']

/-! ## Equality of values -/

section

variable (hprecise : ∀ declared ∈ declarations, declared.type.precision? ≠ some .nan)

include hprecise

/-- Equality of values is equality, once the signs of zeros are dropped. -/
theorem Regular.beq_iff_map_normal_eq (ha : a.Regular declarations) :
    (a == b) = true ↔ a.map Slot.normal = b.map Slot.normal := by
  induction ha generalizing b with
  | nil => cases b <;> simp
  | cons hslot _ ih =>
      obtain ⟨hfirst, hrest⟩ := List.forall_mem_cons.mp hprecise
      cases b with
      | nil => simp
      | cons slot' rest' => simp [hslot.beq_iff_normal_eq hfirst, ih hrest]

/-- Joins that differ in the signs of zeros only have the same value. -/
theorem sameValue_of_map_normal_eq {found found' : Option Tuple}
    (hfound : ∀ tuple ∈ found, tuple.Regular declarations)
    (h : found.map (List.map Slot.normal) = found'.map (List.map Slot.normal)) :
    SameValue found found' :=
  sameValue_of_map_eq h fun tuple htuple _ =>
    ((hfound tuple htuple).beq_iff_map_normal_eq hprecise).mpr

/-- Equal tuples come out in either order. -/
theorem Regular.joins_comm (ha : a.Regular declarations) (hb : b.Regular declarations) :
    SameValue (a.intersect? b) (b.intersect? a) :=
  sameValue_of_map_normal_eq hprecise (fun _ h => ha.intersect? hb h) (ha.intersect?_comm hb)

/-- Equal tuples come out however three tuples are grouped. -/
theorem Regular.joins_assoc (ha : a.Regular declarations) (hb : b.Regular declarations)
    (hc : c.Regular declarations) :
    SameValue ((a.intersect? b).bind fun both => both.intersect? c)
      ((b.intersect? c).bind fun both => a.intersect? both) := by
  refine sameValue_of_map_normal_eq hprecise (fun tuple h => ?_)
    (by rw [Tuple.intersect?_assoc ha.ordered hb.ordered hc.ordered])
  obtain ⟨both, hboth, htuple⟩ := Option.bind_eq_some_iff.mp h
  exact (ha.intersect? hb hboth).intersect? hc htuple

end

end Tuple

/-- The tuple of a path of regular requirements is regular. -/
theorem Path.regular_of_tuple {path : Path} {declarations : List Variable} {tuple : Tuple}
    (hregular : ∀ requirement ∈ path, requirement.Regular)
    (h : path.tuple declarations = .ok (some tuple)) : tuple.Regular declarations :=
  (forall₂_slotOf h).imp fun _ _ => regular_of_slotOf hregular

end DecisionTuples
