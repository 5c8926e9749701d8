import DecisionTuples.CompileError
import DecisionTuples.Path.Basic
import DecisionTuples.Tuple.Basic

/-!
# From paths to tuples

The tuple of a path has a slot for every declared variable, whether or not the
path speaks about it.  A variable that is spoken about several times gets the
intersection of what is said, and a path that cannot hold has no tuple.

An inequality is kept as an open point, which has no values of its own.  Alone
on its variable it stays that point; beside other requirements it is first
widened to every number but the point.

Requirements are checked against the declared types while slots are made, one
variable after the other.  A path that already failed to hold on an earlier
variable is given up before later variables are looked at.
-/

namespace DecisionTuples

namespace Requirement

/-- The slot of a requirement on a declared variable. -/
def slot (declared : Variable) : Requirement → Except CompileError Slot
  | truth _ value _ =>
    match declared.type with
    | .bool => .ok (.ofTruth value)
    | type => .error (.typeMismatch declared.name type .truth)
  | membership _ relation region =>
    match declared.type with
    | .number precision => .ok (.range relation region precision)
    | type => .error (.typeMismatch declared.name type .membership)

end Requirement

namespace Slot

/-- The slot with an inequality written out as every number but the one where its
first segment begins. -/
def widen : Slot → Slot
  | range (.compares .notEqual) region precision =>
    range (.compares .notEqual) (.excluding region.first.interval.lo) precision
  | slot => slot

/-- The intersection of several slots, starting from one that demands nothing. -/
def intersectAll? (slots : List Slot) : Option Slot := slots.foldlM Slot.intersect? .missing

/-- The slot of a variable about which the given slots are said: a single one as
it is, several of them widened and intersected. -/
def combine? (slots : List Slot) : Option Slot :=
  intersectAll? (if 1 < slots.length then slots.map widen else slots)

end Slot

namespace Path

/-- The slot of a variable on a path, or none if what the path says about it
cannot hold. -/
def slotOf (path : Path) (declared : Variable) : Except CompileError (Option Slot) := do
  let slots ← (path.on declared.name).mapM (Requirement.slot declared)
  return Slot.combine? slots

/-- The tuple of a path over the given variables, or none if the path cannot
hold. -/
def tuple (path : Path) : List Variable → Except CompileError (Option Tuple)
  | [] => .ok (some [])
  | declared :: rest => do
    match ← path.slotOf declared with
    | none => return none
    | some slot =>
      let others ← path.tuple rest
      return others.map (slot :: ·)

end Path

/-- The tuples of all paths that can hold, in path order. -/
def PathTable.tupleSet (table : PathTable) : Except CompileError TupleSet := do
  let tuples ← table.paths.mapM fun path => path.tuple table.declarations
  return ⟨table.declarations, tuples.filterMap id⟩

end DecisionTuples
