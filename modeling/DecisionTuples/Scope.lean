import DecisionTuples.CompileError
import DecisionTuples.Feature.References

/-!
# Scope analysis

An optional check before compiling: every variable is declared once, and every
condition is about a declared variable.  The scope remembers the names declared
by the feature that was analysed last.  An analysis begins by forgetting the
names of the one before, and keeps the names up to the first repeated one.
-/

namespace DecisionTuples

/-- The declared names, in order of declaration. -/
structure Scope where
  names : List String

namespace Scope

/-- The scope in which nothing is declared. -/
def empty : Scope := ⟨[]⟩

/-- The scope without any name. -/
def clear (scope : Scope) : Scope := { scope with names := [] }

/-- The scope with the given variables declared as well, up to the first that is
declared already. -/
def declare (scope : Scope) : List Variable → Scope × Except CompileError Unit
  | [] => (scope, .ok ())
  | declared :: rest =>
    if declared.name ∈ scope.names then (scope, .error (.duplicateVariable declared.name))
    else declare ⟨scope.names ++ [declared.name]⟩ rest

/-- Every name is in scope; otherwise the first that is not is the error. -/
def checkReferences (scope : Scope) (names : List String) : Except CompileError Unit :=
  match names.find? fun name => decide (name ∉ scope.names) with
  | some name => .error (.undefinedVariable name)
  | none => .ok ()

/-- Analyse a feature: first its declarations, then what its decisions refer
to. -/
def analyze (scope : Scope) (feature : Feature) : Scope × Except CompileError Unit :=
  match scope.clear.declare feature.declarations with
  | (declared, .error error) => (declared, .error error)
  | (declared, .ok ()) => (declared, declared.checkReferences feature.references)

end Scope
end DecisionTuples
