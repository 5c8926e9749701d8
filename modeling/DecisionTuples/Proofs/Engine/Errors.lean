import DecisionTuples.Engine
import DecisionTuples.Proofs.Path.Enumeration
import DecisionTuples.Proofs.Scope
import DecisionTuples.Proofs.Tuple.Typing

/-!
# Errors that no text leads to

Bringing a condition into canonical form asks for a region, and there is an error for the
case that there is none.  No feature leads to it, because every written comparison has a
region (`Condition.lower_eq`), and no other stage asks for a region.  So the kind of error
that belongs to it is published for nothing (`Engine.kind_ne_invalidExpression`).

The stages are followed one by one: taking a feature apart only ever refuses a construct,
the analysis only complains about a name, and assembling only about the kind of a
condition.
-/

namespace DecisionTuples

variable {feature : Feature} (reason : RegionError)

theorem Feature.pathTable_ne_region : feature.pathTable ≠ .error (.region reason) := by
  rw [feature.pathTable_eq]
  split
  · nofun
  · split
    · nofun
    · nofun

theorem PathTable.tupleSet_ne_region (table : PathTable) :
    table.tupleSet ≠ .error (.region reason) := by
  intro h
  obtain ⟨_, path, _, -, -, htuple⟩ := tupleSet_eq_error_iff.mp h
  obtain ⟨declared, -, -, heq⟩ := Path.tuple_eq_error_iff.mp htuple
  cases heq

theorem Scope.analyze_ne_region (scope : Scope) :
    (scope.analyze feature).2 ≠ .error (.region reason) := by
  intro h
  cases analyze_eq_error_iff.mp h

namespace Compiler

variable (compiler : Compiler)

theorem pathTable_ne_region : (compiler.pathTable feature).2 ≠ .error (.region reason) := by
  unfold pathTable
  split
  · split
    · next scope error hanalyze =>
        rintro ⟨⟩
        exact compiler.scope.analyze_ne_region reason (congrArg Prod.snd hanalyze)
    · exact Feature.pathTable_ne_region reason
  · exact Feature.pathTable_ne_region reason

theorem compile_ne_region : (compiler.compile feature).2 ≠ .error (.region reason) := by
  unfold compile
  split
  · next next error hpaths =>
      rintro ⟨⟩
      exact compiler.pathTable_ne_region reason (congrArg Prod.snd hpaths)
  · next next table _ => exact table.tupleSet_ne_region reason

end Compiler

namespace Engine

variable {engine : Engine} {source : String} {error : EngineError}

/-- A text that cannot be parsed has another kind of error, and so has a stage behind the
parser, unless it misses a region. -/
theorem kind_of_stage {α : Type} {stage : Feature → Except CompileError α}
    (hstage : ∀ feature reason, stage feature ≠ .error (.region reason))
    (h : (do let feature ← engine.parse source; (stage feature).mapError .compile) =
      .error error) : error.kind ≠ .invalidExpression := by
  rcases bind_eq_error_iff.mp h with hparse | ⟨feature, -, hfails⟩
  · obtain ⟨cause, -, rfl⟩ := mapError_eq_error hparse
    cases cause with
    | unreadable report => nofun
    | precision literal => nofun
  · obtain ⟨cause, hcause, rfl⟩ := mapError_eq_error hfails
    cases cause with
    | region reason => exact absurd hcause (hstage feature reason)
    | _ => nofun

/-- **No text compares in a way that has no region.**  Neither taking a text apart into paths
nor compiling it ends in an error of that kind, whatever the settings are. -/
theorem kind_ne_invalidExpression
    (h : engine.pathTable source = .error error ∨ engine.compile source = .error error) :
    error.kind ≠ .invalidExpression := by
  rcases h with hpaths | hcompile
  · exact kind_of_stage (fun _ reason => Compiler.pathTable_ne_region reason _) hpaths
  · exact kind_of_stage (fun _ reason => Compiler.compile_ne_region reason _) hcompile

end Engine
end DecisionTuples
