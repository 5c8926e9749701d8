import DecisionTuples.Proofs.Tuple.Intersection
import DecisionTuples.Proofs.Tuple.Typing
import Mathlib.Data.List.Perm.Basic
import Mathlib.Data.Option.Basic

/-!
# The order of requirements does not matter

The tuple of a path is the same for every order of its requirements: the segments of its
slots, their order, the relations and the precisions are the same, and so are the two
ways of having no tuple.  `Path.tuple_perm` says so with equality of values, which does
not see the sign of a zero; which of two equal bounds is kept does depend on the order.

Of two orders, a misfit on a variable is found by both or by none, because the error
depends on the variable alone.  Whether slots are widened depends on their number only.
The rest is that slots of one variable may be joined in any order
(`Slot.combine?_perm`).
-/

namespace DecisionTuples

/-- Both are missing, or both are there and have equal values. -/
abbrev SameValue {α : Type} [BEq α] : Option α → Option α → Prop :=
  Option.Rel fun a b => (a == b) = true

/-- Values are the same if they are after some change that only equal values survive
alike. -/
theorem sameValue_of_map_eq {α β : Type} [BEq α] {f : α → β} {x y : Option α}
    (h : x.map f = y.map f) (hf : ∀ a ∈ x, ∀ b, f a = f b → (a == b) = true) :
    SameValue x y := by
  cases x with
  | none =>
      rw [Option.map_none, eq_comm, Option.map_eq_none_iff] at h
      rw [h]
      exact .none
  | some a =>
      rw [Option.map_some, eq_comm, Option.map_eq_some_iff] at h
      obtain ⟨b, rfl, hfb⟩ := h
      exact .some (hf a rfl b hfb.symm)

namespace Path

variable {path path' : Path}

theorem on_perm (hperm : path.Perm path') (name : String) :
    (path.on name).Perm (path'.on name) :=
  hperm.filter _

theorem misfits_perm (hperm : path.Perm path') {declared : Variable} (h : path.Misfits declared) :
    path'.Misfits declared := by
  obtain ⟨requirement, hmem, hmisfit⟩ := h
  exact ⟨requirement, hperm.mem_iff.mp hmem, hmisfit⟩

/-- What is kept for one variable is the same in every order. -/
theorem slotOf_perm (hperm : path.Perm path')
    (hregular : ∀ requirement ∈ path, requirement.Regular) {declared : Variable}
    (htype : declared.type.precision? ≠ some .nan) :
    Agree SameValue (path.slotOf declared) (path'.slotOf declared) := by
  cases hslot : path.slotOf declared with
  | error error =>
      obtain ⟨hmisfits, herror⟩ := slotOf_eq_error_iff.mp hslot
      rw [slotOf_eq_error_iff.mpr ⟨misfits_perm hperm hmisfits, herror⟩]
      exact .error error
  | ok found =>
      cases hslot' : path'.slotOf declared with
      | error error =>
          obtain ⟨hmisfits, herror⟩ := slotOf_eq_error_iff.mp hslot'
          have hfails := slotOf_eq_error_iff.mpr ⟨misfits_perm hperm.symm hmisfits, herror⟩
          rw [hslot] at hfails
          cases hfails
      | ok found' =>
          obtain ⟨slots, hslots, rfl⟩ := slotOf_eq_ok_iff.mp hslot
          obtain ⟨slots', hslots', rfl⟩ := slotOf_eq_ok_iff.mp hslot'
          -- The slots are those of the requirements, so they are in another order as well.
          obtain ⟨moved, hmoved, hmovedPerm⟩ := List.perm_comp_forall₂
            (on_perm hperm declared.name) (mapM_eq_ok_iff.mp hslots')
          obtain rfl : slots = moved :=
            Except.ok.inj (hslots.symm.trans (mapM_eq_ok_iff.mpr hmoved))
          have hall := regular_of_mapM hregular hslots
          have hcombine := Slot.combine?_perm hmovedPerm fun slot hmem => (hall slot hmem).2.2
          refine .ok (sameValue_of_map_eq hcombine fun slot hkept _ => ?_)
          have hslotRegular := regular_of_slotOf hregular (hslot.trans (congrArg _ hkept))
          exact (hslotRegular.beq_iff_normal_eq htype).mpr

/-- **The tuple of a path does not depend on the order of its requirements.** -/
theorem tuple_perm (hperm : path.Perm path')
    (hregular : ∀ requirement ∈ path, requirement.Regular) : ∀ {declarations : List Variable},
      (∀ declared ∈ declarations, declared.type.precision? ≠ some .nan) →
        Agree SameValue (path.tuple declarations) (path'.tuple declarations)
  | [], _ => .ok (.some rfl)
  | declared :: rest, hprecise => by
      obtain ⟨hfirst, hrest⟩ := List.forall_mem_cons.mp hprecise
      rw [tuple, tuple]
      refine (slotOf_perm hperm hregular hfirst).bind fun found found' hfound => ?_
      cases hfound with
      | none => exact .ok .none
      | some hslot =>
          refine (tuple_perm hperm hregular hrest).bind fun others others' hothers => ?_
          refine .ok ?_
          cases hothers with
          | none => exact .none
          | some htuple => exact .some (by simp [hslot, htuple])

end Path

namespace PathTable

/-- Two tables with the same declarations, each path of one being a path of the other in
another order, have the same tuples. -/
theorem tupleSet_perm {table table' : PathTable}
    (hdeclarations : table'.declarations = table.declarations)
    (hpaths : List.Forall₂ List.Perm table.paths table'.paths)
    (hregular : ∀ path ∈ table.paths, ∀ requirement ∈ path, requirement.Regular)
    (hprecise : ∀ declared ∈ table.declarations, declared.type.precision? ≠ some .nan) :
    Agree (fun set set' => set'.declarations = set.declarations ∧
      (set.tuples == set'.tuples) = true) table.tupleSet table'.tupleSet := by
  have hmap : List.Forall₂ (fun path path' => Agree SameValue (Path.tuple path table.declarations)
      (Path.tuple path' table'.declarations)) table.paths table'.paths := by
    rw [hdeclarations]
    refine ((List.forall₂_and_left _ _).mpr ⟨hregular, hpaths⟩).imp ?_
    intro path path' ⟨hpath, hperm⟩
    exact Path.tuple_perm hperm hpath hprecise
  refine (agree_mapM hmap).bind fun outcomes outcomes' houtcomes => .ok ⟨hdeclarations, ?_⟩
  induction houtcomes with
  | nil => rfl
  | cons hfirst _ ih =>
      cases hfirst with
      | none => exact ih
      | some htuple => simp_all

end PathTable
end DecisionTuples
