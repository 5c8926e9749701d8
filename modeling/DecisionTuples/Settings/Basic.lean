import DecisionTuples.Compiler

/-!
# Settings

What an engine is configured with: the options of its compiler, and whether its
work is traced.  Tracing has no influence on any result.
-/

namespace DecisionTuples

/-- The configuration of an engine. -/
structure Settings where
  compiler : CompilerOptions
  tracing : Bool
  deriving DecidableEq

namespace Settings

/-- Nothing is asked for. -/
def default : Settings := ⟨.default, false⟩

/-- The settings with other compiler options. -/
def withCompiler (settings : Settings) (options : CompilerOptions) : Settings :=
  { settings with compiler := options }

/-- The settings with scope analysis switched on or off. -/
def withScopeAnalysis (settings : Settings) (enabled : Bool) : Settings :=
  { settings with compiler := ⟨enabled⟩ }

/-- The settings with tracing switched on or off. -/
def withTracing (settings : Settings) (enabled : Bool) : Settings :=
  { settings with tracing := enabled }

end Settings
end DecisionTuples
