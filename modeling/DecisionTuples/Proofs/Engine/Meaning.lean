import DecisionTuples.Engine
import DecisionTuples.Proofs.Compiler
import DecisionTuples.Proofs.Grammar.Constants
import DecisionTuples.Proofs.Tuple.OfPath

/-!
# The tuples of a text say what the text says

Compiling a text gives its paths in order, and each path gives at most one tuple.
`Engine.compile_preserves_meaning` compares the two ends: the conditions as they are
written and the tuples as they are read.  A finite valuation satisfies a path exactly
if the path has a tuple and the valuation lies in it, whatever the settings of the
engine.

The converse of *a path that has no tuple cannot hold* fails.  A single condition is
taken as it is, and several are intersected on the line with its infinite ends, so
there are tuples in which no finite value lies.  `Engine.compile_satisfiable_iff` says
on which paths this happens.
-/

namespace DecisionTuples

/-- Some finite valuation satisfies the path. -/
def CanHold (declarations : List Variable) (conditions : List Condition) : Prop :=
  ∃ valuation : Valuation, (∀ name, (valuation name).IsFinite) ∧
    Satisfies valuation declarations conditions

/-- What a path comes to: the tuple that the code computes for it, if any, admits
exactly the finite valuations that satisfy the path. -/
structure Preserved (declarations : List Variable) (conditions : List Condition)
    (outcome : Option Tuple) : Prop where
  computed : Path.tuple (conditions.map Condition.requirement) declarations = .ok outcome
  satisfies_iff : ∀ valuation : Valuation, (∀ name, (valuation name).IsFinite) →
    (Satisfies valuation declarations conditions ↔
      ∃ tuple, outcome = some tuple ∧ tuple.Admits declarations valuation)

/-- When a path is given up, and when the tuple of a path that is not given up has a
finite value. -/
structure Judged (declarations : List Variable) (conditions : List Condition)
    (outcome : Option Tuple) : Prop where
  computed : Path.tuple (conditions.map Condition.requirement) declarations = .ok outcome
  isSome_iff : outcome.isSome ↔
    ∀ declared ∈ declarations, Unrefuted (conditionsOn conditions declared.name)
  canHold_iff : CanHold declarations conditions ↔
    ∀ declared ∈ declarations, Satisfiable (conditionsOn conditions declared.name)

namespace Engine

variable {engine : Engine} {source : String} {set : TupleSet}

/-- A compiled text was read as a feature, the feature has paths, and the tuples are
made from them; the analysis of names changes nothing of that. -/
theorem compile_stages (h : engine.compile source = .ok set) :
    ∃ feature table, engine.parse source = .ok feature ∧ feature.pathTable = .ok table ∧
      table.tupleSet = .ok set := by
  obtain ⟨feature, hfeature, h⟩ := bind_eq_ok h
  obtain ⟨-, table, htable, hset⟩ := Compiler.compile_eq_ok_iff.mp (mapError_eq_ok h)
  exact ⟨feature, table, hfeature, htable, hset⟩

/-- The tuples of a text are what the paths come to, in path order, and no constant on
the paths is `nan`. -/
theorem compile_outcomes (h : engine.compile source = .ok set) :
    ∃ feature outcomes, engine.parse source = .ok feature ∧
      set.declarations = feature.declarations ∧ set.tuples = outcomes.filterMap id ∧
        List.Forall₂ (fun conditions outcome =>
          (∀ condition ∈ conditions, condition.Ordered) ∧
            Path.tuple (conditions.map Condition.requirement) feature.declarations = .ok outcome)
          feature.writtenPaths outcomes := by
  obtain ⟨feature, table, hfeature, htable, hset⟩ := compile_stages h
  rw [feature.eq_of_pathTable htable] at hset
  obtain ⟨outcomes, houtcomes, hset⟩ := bind_eq_ok hset
  cases hset
  have hordered := Feature.parse_ordered (mapError_eq_ok hfeature)
  have hcomputed := List.forall₂_map_left_iff.mp (mapM_eq_ok_iff.mp houtcomes)
  exact ⟨feature, outcomes, hfeature, rfl, rfl,
    (List.forall₂_and_left _ _).mpr ⟨hordered, hcomputed⟩⟩

/-- **Compiling preserves meaning.**  Each path of the text, in order, comes to at most
one tuple; a finite valuation satisfies the path if and only if there is the tuple and
it admits the valuation.  A path without a tuple is satisfied by none. -/
theorem compile_preserves_meaning (h : engine.compile source = .ok set) :
    ∃ feature outcomes, engine.parse source = .ok feature ∧
      set.declarations = feature.declarations ∧ set.tuples = outcomes.filterMap id ∧
        List.Forall₂ (Preserved feature.declarations) feature.writtenPaths outcomes := by
  obtain ⟨feature, outcomes, hfeature, hdeclarations, htuples, hpaths⟩ := compile_outcomes h
  refine ⟨feature, outcomes, hfeature, hdeclarations, htuples, hpaths.imp ?_⟩
  intro conditions outcome ⟨hordered, hcomputed⟩
  refine ⟨hcomputed, fun valuation hfinite => ?_⟩
  rw [satisfies_iff, Path.tuple_admits_iff hordered hfinite hcomputed]

/-- Two ways through one decision: the first has a tuple, the second cannot hold. -/
theorem compile_preserves_meaning_two_paths :
    ∃ set, (Engine.mk .default).compile
        "[ var x: num var b: bool if (x != 3 && x < 5) { if (b = true) if (x > 9) } ]" = .ok set ∧
      set.tuples.length = 1 ∧
      ∃ feature outcomes, (Engine.mk .default).parse
          "[ var x: num var b: bool if (x != 3 && x < 5) { if (b = true) if (x > 9) } ]" =
            .ok feature ∧
        set.declarations = feature.declarations ∧ set.tuples = outcomes.filterMap id ∧
          List.Forall₂ (Preserved feature.declarations) feature.writtenPaths outcomes := by
  have hcompiles : ((Engine.mk .default).compile
      "[ var x: num var b: bool if (x != 3 && x < 5) { if (b = true) if (x > 9) } ]").toOption.any
        (fun set => set.tuples.length = 1) = true := by
    decide +kernel
  obtain ⟨set, hset, hlength⟩ := exists_ok_of_any hcompiles
  exact ⟨set, hset, of_decide_eq_true hlength, compile_preserves_meaning hset⟩

/-- **Tuples without values.**  A path keeps its tuple unless the conditions on one
variable are refuted, and it can hold if and only if the conditions on each variable
are satisfiable.  So all tuples of a text have a finite value exactly if no path of it
is unrefuted on all variables and unsatisfiable on one. -/
theorem compile_satisfiable_iff (h : engine.compile source = .ok set) :
    ∃ feature outcomes, engine.parse source = .ok feature ∧ set.tuples = outcomes.filterMap id ∧
      List.Forall₂ (Judged feature.declarations) feature.writtenPaths outcomes ∧
      (List.Forall₂ (fun conditions outcome =>
          outcome.isSome → CanHold feature.declarations conditions)
          feature.writtenPaths outcomes ↔
        ∀ conditions ∈ feature.writtenPaths,
          (∀ declared ∈ feature.declarations, Unrefuted (conditionsOn conditions declared.name)) →
            ∀ declared ∈ feature.declarations,
              Satisfiable (conditionsOn conditions declared.name)) := by
  obtain ⟨feature, outcomes, hfeature, -, htuples, hpaths⟩ := compile_outcomes h
  have hjudged : List.Forall₂ (Judged feature.declarations) feature.writtenPaths outcomes := by
    refine hpaths.imp ?_
    intro conditions outcome ⟨hordered, hcomputed⟩
    exact ⟨hcomputed, Path.tuple_isSome_iff hordered hcomputed, exists_satisfies_iff⟩
  refine ⟨feature, outcomes, hfeature, htuples, hjudged, ?_⟩
  refine forall₂_iff_forall_mem hjudged fun conditions outcome hpath => ?_
  rw [hpath.isSome_iff, hpath.canHold_iff]

/-- Two conditions that have only an infinite point in common are not refuted. -/
theorem compile_satisfiable_iff_infinite_point :
    ∃ set feature outcomes,
      (Engine.mk .default).compile "[ var x: num if (x = Inf && x <= Inf) ]" = .ok set ∧
      set.tuples.length = 1 ∧
      (Engine.mk .default).parse "[ var x: num if (x = Inf && x <= Inf) ]" = .ok feature ∧
      set.tuples = outcomes.filterMap id ∧
      List.Forall₂ (Judged feature.declarations) feature.writtenPaths outcomes := by
  have hcompiles : ((Engine.mk .default).compile
      "[ var x: num if (x = Inf && x <= Inf) ]").toOption.any
        (fun set => set.tuples.length = 1) = true := by
    decide +kernel
  obtain ⟨set, hset, hlength⟩ := exists_ok_of_any hcompiles
  obtain ⟨feature, outcomes, hfeature, htuples, hjudged, -⟩ := compile_satisfiable_iff hset
  exact ⟨set, feature, outcomes, hset, of_decide_eq_true hlength, hfeature, htuples, hjudged⟩

/-- A condition whose bounds stand in the wrong order: the text compiles to one tuple,
and no finite valuation satisfies its path. -/
theorem compile_reversed_bounds :
    ∃ set feature conditions,
      (Engine.mk .default).compile "[ var x: num if (x in [5, 1]) ]" = .ok set ∧
      set.tuples.length = 1 ∧
      (Engine.mk .default).parse "[ var x: num if (x in [5, 1]) ]" = .ok feature ∧
      feature.writtenPaths = [conditions] ∧ ¬ CanHold feature.declarations conditions := by
  have hcompiles : ((Engine.mk .default).compile
      "[ var x: num if (x in [5, 1]) ]").toOption.any
        (fun set => set.tuples.length = 1) = true := by
    decide +kernel
  have hparses : ((Engine.mk .default).parse "[ var x: num if (x in [5, 1]) ]").toOption.any
      (fun feature => feature.declarations = [⟨"x", .num⟩] ∧ feature.writtenPaths =
        [[.membership "x" ⟨.ofRatio false 5 1, .ofRatio false 1 1⟩ .closed]]) = true := by
    decide +kernel
  obtain ⟨set, hset, hlength⟩ := exists_ok_of_any hcompiles
  obtain ⟨feature, hfeature, hfound⟩ := exists_ok_of_any hparses
  obtain ⟨hdeclarations, hpaths⟩ := of_decide_eq_true hfound
  refine ⟨set, feature, _, hset, of_decide_eq_true hlength, hfeature, hpaths, ?_⟩
  rintro ⟨valuation, -, hsatisfies⟩
  have hholds := hsatisfies _ (List.mem_singleton_self _) (by simp [hdeclarations, Condition.name])
  change Condition.Holds _ (valuation "x") at hholds
  cases hvalue : valuation "x" with
  | truth b =>
      rw [hvalue] at hholds
      exact hholds
  | number x =>
      have hempty : Segment.IsEmpty
          ⟨.closed, ⟨.ofRatio false 5 1, .ofRatio false 1 1⟩⟩ := by decide +kernel
      rw [hvalue] at hholds
      exact (Segment.isEmpty_iff _).mp hempty x hholds

end Engine
end DecisionTuples
