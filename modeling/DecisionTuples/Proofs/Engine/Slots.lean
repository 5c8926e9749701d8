import DecisionTuples.Proofs.Engine.Meaning
import DecisionTuples.Proofs.Tuple.NormalForm
import DecisionTuples.Proofs.Tuple.Tag

/-!
# The slots of a compiled text

What a compiled text keeps for a variable depends on the conditions on that variable alone.
So what holds of a slot with regard to some conditions holds of every slot of every tuple
with regard to the conditions that the path puts on its variable (`Engine.compile_slots`).

* `Engine.compile_normalForm`: the segments of a region are in order, apart and few.
* `Engine.compile_told`: the relation of a region tells its shape.  For inequalities the
  shape is that of several excluded numbers; `Engine.two_inequalities` is a text where no
  single number describes it.
-/

namespace DecisionTuples

/-- What a path comes to: the tuple that the code computes for it, if any, in which every
slot fits the conditions on its variable. -/
structure Fits (P : List Condition → Slot → Prop) (declarations : List Variable)
    (conditions : List Condition) (outcome : Option Tuple) : Prop where
  computed : Path.tuple (conditions.map Condition.requirement) declarations = .ok outcome
  slots : ∀ tuple, outcome = some tuple → List.Forall₂
    (fun declared slot => P (conditionsOn conditions declared.name) slot) declarations tuple

namespace Engine

variable {engine : Engine} {source : String} {set : TupleSet}

/-- What holds of all that is kept of conditions on one variable holds of the slots of a
compiled text. -/
theorem compile_slots {P : List Condition → Slot → Prop}
    (hP : ∀ declared conditions slots slot, SlotsOf declared conditions slots →
      (∀ condition ∈ conditions, condition.Ordered) → Slot.combine? slots = some slot →
        P conditions slot)
    (h : engine.compile source = .ok set) :
    ∃ feature outcomes, engine.parse source = .ok feature ∧
      set.declarations = feature.declarations ∧ set.tuples = outcomes.filterMap id ∧
        List.Forall₂ (Fits P feature.declarations) feature.writtenPaths outcomes := by
  obtain ⟨feature, outcomes, hfeature, hdeclarations, htuples, hpaths⟩ := compile_outcomes h
  refine ⟨feature, outcomes, hfeature, hdeclarations, htuples, hpaths.imp ?_⟩
  intro conditions outcome ⟨hordered, hcomputed⟩
  refine ⟨hcomputed, ?_⟩
  rintro tuple rfl
  refine (Path.forall₂_slotOf hcomputed).imp fun declared slot hslot => ?_
  obtain ⟨slots, hslots, hcombine⟩ := Path.slotOf_eq_ok hslot
  have hon := Path.ordered_conditionsOn hordered declared.name
  exact hP declared _ slots slot hslots hon hcombine.symm

/-- **Merged slots are in normal form.**  In every tuple of a compiled text, the segments of
a region are in increasing order and apart from each other; there is at most one more of
them than inequalities on the variable on the path; and none of them is empty if there are
two conditions on the variable. -/
theorem compile_normalForm (h : engine.compile source = .ok set) :
    ∃ feature outcomes, engine.parse source = .ok feature ∧
      set.declarations = feature.declarations ∧ set.tuples = outcomes.filterMap id ∧
        List.Forall₂ (Fits Slot.NormalForm feature.declarations) feature.writtenPaths outcomes :=
  compile_slots (fun _ _ _ _ hslots hordered hcombine => hslots.normalForm hordered hcombine) h

/-- Two inequalities cut the half-line below nine in three. -/
theorem compile_normalForm_two_cuts :
    ∃ set feature outcomes,
      (Engine.mk .default).compile "[ var x: num if (x != 3 && x < 9) { if (5 != x) } ]" =
        .ok set ∧
      set.tuples.map (List.map Slot.cuts) = [[2]] ∧
      (Engine.mk .default).parse "[ var x: num if (x != 3 && x < 9) { if (5 != x) } ]" =
        .ok feature ∧
      set.tuples = outcomes.filterMap id ∧
      List.Forall₂ (Fits Slot.NormalForm feature.declarations) feature.writtenPaths outcomes := by
  have hcompiles : ((Engine.mk .default).compile
      "[ var x: num if (x != 3 && x < 9) { if (5 != x) } ]").toOption.any
        (fun set => set.tuples.map (List.map Slot.cuts) = [[2]]) = true := by
    decide +kernel
  obtain ⟨set, hset, hcuts⟩ := exists_ok_of_any hcompiles
  obtain ⟨feature, outcomes, hfeature, -, htuples, hpaths⟩ := compile_normalForm hset
  exact ⟨set, feature, outcomes, hset, of_decide_eq_true hcuts, hfeature, htuples, hpaths⟩

/-- **The relation of a slot tells its shape.**  In every tuple of a compiled text, a region
under a comparison was made from conditions that all compare the variable in that way.  It
is the solutions of the comparison with one of their constants; only for inequalities it is
the open point of a single one, or the gaps that several leave. -/
theorem compile_told (h : engine.compile source = .ok set) :
    ∃ feature outcomes, engine.parse source = .ok feature ∧
      set.declarations = feature.declarations ∧ set.tuples = outcomes.filterMap id ∧
        List.Forall₂ (Fits Slot.Told feature.declarations) feature.writtenPaths outcomes :=
  compile_slots (fun _ _ _ _ hslots hordered hcombine => hslots.told hordered hcombine) h

/-- Two upper bounds on one variable, and two excluded numbers on another. -/
theorem compile_told_two_variables :
    ∃ set feature outcomes,
      (Engine.mk .default).compile
        "[ var x: num var y: num if (x < 3 && x < 2 && y != 1 && y != 4) ]" = .ok set ∧
      set.tuples.map (List.map Slot.relation?) =
        [[some (.compares .less), some (.compares .notEqual)]] ∧
      (Engine.mk .default).parse
        "[ var x: num var y: num if (x < 3 && x < 2 && y != 1 && y != 4) ]" = .ok feature ∧
      set.tuples = outcomes.filterMap id ∧
      List.Forall₂ (Fits Slot.Told feature.declarations) feature.writtenPaths outcomes := by
  have hcompiles : ((Engine.mk .default).compile
      "[ var x: num var y: num if (x < 3 && x < 2 && y != 1 && y != 4) ]").toOption.any
        (fun set => set.tuples.map (List.map Slot.relation?) =
          [[some (.compares .less), some (.compares .notEqual)]]) = true := by
    decide +kernel
  obtain ⟨set, hset, hrelations⟩ := exists_ok_of_any hcompiles
  obtain ⟨feature, outcomes, hfeature, -, htuples, hpaths⟩ := compile_told hset
  exact ⟨set, feature, outcomes, hset, of_decide_eq_true hrelations, hfeature, htuples, hpaths⟩

/-- A slot under an inequality that excludes two numbers: no number is the one that the
region excludes. -/
theorem two_inequalities :
    ∃ set region precision,
      (Engine.mk .default).compile "[ var x: num if (x != 3 && x != 5) ]" = .ok set ∧
      set.tuples = [[.range (.compares .notEqual) region precision]] ∧
      ∀ v, region ≠ .solutions .notEqual v ∧ region ≠ .excluding v := by
  have hcompiles : ((Engine.mk .default).compile
      "[ var x: num if (x != 3 && x != 5) ]").toOption.any
        (fun set => set.tuples = [[.range (.compares .notEqual)
          ⟨.between .negativeInfinity (.ofRatio false 3 1),
            [.between (.ofRatio false 3 1) (.ofRatio false 5 1),
              .between (.ofRatio false 5 1) .infinity]⟩ (.ofRatio false 1 100)]]) = true := by
    decide +kernel
  obtain ⟨set, hset, htuples⟩ := exists_ok_of_any hcompiles
  refine ⟨set, _, _, hset, of_decide_eq_true htuples, fun v => ⟨fun h => ?_, fun h => ?_⟩⟩
  · have hlength : 2 = 0 := congrArg (fun region : Region => region.others.length) h
    cases hlength
  · have hlength : 2 = 1 := congrArg (fun region : Region => region.others.length) h
    cases hlength

end Engine
end DecisionTuples
