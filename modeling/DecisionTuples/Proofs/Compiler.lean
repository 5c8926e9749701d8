import DecisionTuples.Compiler
import DecisionTuples.Proofs.Except

/-!
# What the compiler has done when it succeeds

A feature that was compiled has passed the analysis, if one was asked for, and its tuples
are those of its paths.  The analysis has no other influence: it looks at the declared
names and at the names that are referred to, and it changes nothing but the scope.
-/

namespace DecisionTuples

theorem Scope.checkReferences_eq_ok_iff {scope : Scope} {names : List String} :
    scope.checkReferences names = .ok () ↔ ∀ name ∈ names, name ∈ scope.names := by
  unfold Scope.checkReferences
  split
  · next name hfound =>
      have hmem := List.mem_of_find?_eq_some hfound
      have hmissing : name ∉ scope.names := by simpa using List.find?_some hfound
      exact ⟨nofun, fun h => absurd (h name hmem) hmissing⟩
  · next hnone => simpa using hnone

theorem Scope.analyze_eq_ok_iff {scope : Scope} {feature : Feature} :
    (scope.analyze feature).2 = .ok () ↔
      (scope.clear.declare feature.declarations).2 = .ok () ∧
        ∀ name ∈ feature.references,
          name ∈ (scope.clear.declare feature.declarations).1.names := by
  unfold Scope.analyze
  split
  · next declared error hdeclare => simp [hdeclare]
  · next declared hdeclare => simp [hdeclare, checkReferences_eq_ok_iff]

namespace Compiler

variable {compiler : Compiler} {feature : Feature}

/-- The feature passes the analysis that the compiler makes of it, if it makes one. -/
def Passes (compiler : Compiler) (feature : Feature) : Prop :=
  compiler.options.scopeAnalysis = true → (compiler.scope.analyze feature).2 = .ok ()

theorem pathTable_eq_ok_iff {table : PathTable} :
    (compiler.pathTable feature).2 = .ok table ↔
      compiler.Passes feature ∧ feature.pathTable = .ok table := by
  unfold pathTable Passes
  split
  · next hanalysis =>
      split
      · next scope error hanalyze => simp [hanalysis, hanalyze]
      · next scope hanalyze => simp [hanalyze]
  · next hanalysis => simp [hanalysis]

theorem compile_eq_ok_iff {set : TupleSet} :
    (compiler.compile feature).2 = .ok set ↔
      compiler.Passes feature ∧
        ∃ table, feature.pathTable = .ok table ∧ table.tupleSet = .ok set := by
  have htable : (compiler.compile feature).2 = .ok set ↔
      ∃ table, (compiler.pathTable feature).2 = .ok table ∧ table.tupleSet = .ok set := by
    unfold compile
    split
    · next next error hpaths => simp [hpaths]
    · next next table hpaths => simp [hpaths]
  simp only [htable, pathTable_eq_ok_iff, and_assoc, exists_and_left]

end Compiler
end DecisionTuples
