import DecisionTuples.Path.OfFeature
import DecisionTuples.Scope
import DecisionTuples.Tuple.OfPath

/-!
# The compiler

A compiler holds its options and the scope left by its last analysis.  Before a
feature is taken apart into paths it is analysed, if the options ask for it; the
new scope is kept whether or not the analysis succeeds.  Without analysis the
scope stays as it was, and conditions on undeclared variables have no effect.
-/

namespace DecisionTuples

/-- What the compiler is asked to do beyond compiling. -/
structure CompilerOptions where
  /-- Refuse repeated declarations and undeclared names. -/
  scopeAnalysis : Bool
  deriving DecidableEq

/-- The options that ask for nothing. -/
def CompilerOptions.default : CompilerOptions := ⟨false⟩

/-- Options together with the scope of the last analysis. -/
structure Compiler where
  options : CompilerOptions
  scope : Scope

namespace Compiler

/-- A compiler that has analysed nothing yet. -/
def new (options : CompilerOptions) : Compiler := ⟨options, .empty⟩

/-- The paths of a feature, after the analysis that the options ask for. -/
def pathTable (compiler : Compiler) (feature : Feature) :
    Compiler × Except CompileError PathTable :=
  if compiler.options.scopeAnalysis then
    match compiler.scope.analyze feature with
    | (scope, .error error) => ({ compiler with scope := scope }, .error error)
    | (scope, .ok ()) => ({ compiler with scope := scope }, feature.pathTable)
  else (compiler, feature.pathTable)

/-- The tuples of the paths of a feature. -/
def compile (compiler : Compiler) (feature : Feature) :
    Compiler × Except CompileError TupleSet :=
  match compiler.pathTable feature with
  | (next, .error error) => (next, .error error)
  | (next, .ok table) => (next, table.tupleSet)

end Compiler
end DecisionTuples
