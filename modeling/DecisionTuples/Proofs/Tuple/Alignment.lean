import DecisionTuples.Proofs.Tuple.Intersection
import DecisionTuples.Proofs.Tuple.OfPath

/-!
# Tuples stay aligned with the declarations

A tuple has one slot for each declared variable, in the order of declaration, and the slot
tells of its own variable only.  `Slot.Aligned` says what a slot has to do with the variable
at its position:

* it is missing exactly if no requirement on the path names the variable;
* it is a truth value exactly if the variable is declared as one and the path names it;
* otherwise it is a range with the precision that the variable is declared with;
* it is the slot that any other path over any other declarations keeps for a variable of
  the same type about which it says the same.

`PathTable.tupleSet_aligned` says so of all tuples of a table.  It follows that the column
of a declared name has one slot for each tuple.
-/

namespace DecisionTuples

/-! ## Types of slots -/

namespace Slot

/-- The slot can be kept for a variable of the type; a range has the declared
precision. -/
def OfType (type : ValueType) : Slot → Prop
  | missing => True
  | truth _ _ => type = .bool
  | range _ _ precision => type = .number precision

variable {type : ValueType} {slot : Slot}

theorem OfType.widen (h : slot.OfType type) : slot.widen.OfType type := by
  unfold Slot.widen
  split
  · exact h
  · exact h

/-- The precision of a joined range is the one that both ranges have. -/
theorem OfType.intersect? (a b c : Slot) (ha : a.OfType type) (hb : b.OfType type)
    (h : a.intersect? b = some c) : c.OfType type := by
  cases joins_of_intersect? h with
  | missing_left => exact hb
  | missing_right => exact ha
  | truth => exact ha
  | range => exact ha

theorem OfType.combine? {slots : List Slot} (h : ∀ slot ∈ slots, slot.OfType type)
    (hcombine : combine? slots = some slot) : slot.OfType type :=
  combine?_preserves OfType.intersect? trivial h (fun slot hslot => (h slot hslot).widen) hcombine

end Slot

theorem Requirement.ofType_slot {requirement : Requirement} {declared : Variable} {slot : Slot}
    (h : requirement.slot declared = .ok slot) : slot.OfType declared.type := by
  obtain ⟨name, type⟩ := declared
  cases requirement <;> cases type <;> cases h <;> rfl

/-- The name of a variable only occurs in errors about it. -/
theorem Requirement.slot_congr {requirement : Requirement} {declared declared' : Variable}
    {slot : Slot} (htype : declared'.type = declared.type)
    (h : requirement.slot declared = .ok slot) : requirement.slot declared' = .ok slot := by
  obtain ⟨name, type⟩ := declared
  obtain ⟨name', type'⟩ := declared'
  obtain rfl : type' = type := htype
  cases requirement <;> cases type' <;> cases h <;> rfl

/-! ## One slot -/

/-- What the slot that a path keeps for a variable has to do with the path and the
variable. -/
structure Slot.Aligned (path : Path) (declared : Variable) (slot : Slot) : Prop where
  /-- Nothing is demanded of the variable exactly if the path does not name it. -/
  missing_iff : slot = .missing ↔ ∀ requirement ∈ path, requirement.name ≠ declared.name
  /-- A truth value is demanded exactly if the variable has one and the path names it. -/
  truth_iff : (∃ relation value, slot = .truth relation value) ↔
    declared.type = .bool ∧ ∃ requirement ∈ path, requirement.name = declared.name
  /-- Anything else is a range with the declared precision. -/
  range : slot ≠ .missing → (∀ relation value, slot ≠ .truth relation value) →
    ∃ relation region precision, slot = .range relation region precision ∧
      declared.type = .number precision
  /-- Only the type of the variable and the requirements on it count. -/
  independent : ∀ (path' : Path) (declarations' : List Variable) (tuple' : Tuple) (index : Nat)
    (declared' : Variable) (slot' : Slot),
    path'.tuple declarations' = .ok (some tuple') → declarations'[index]? = some declared' →
      tuple'[index]? = some slot' → declared'.type = declared.type →
        path'.on declared'.name = path.on declared.name → slot' = slot

namespace Path

variable {path path' : Path} {declared declared' : Variable} {slot slot' : Slot}

theorem on_eq_nil_iff {name : String} :
    path.on name = [] ↔ ∀ requirement ∈ path, requirement.name ≠ name := by
  simp [on]

theorem ofType_of_slotOf (h : path.slotOf declared = .ok (some slot)) :
    slot.OfType declared.type := by
  obtain ⟨slots, hslots, hcombine⟩ := slotOf_eq_ok_iff.mp h
  refine Slot.OfType.combine? (fun said hsaid => ?_) hcombine.symm
  obtain ⟨requirement, -, hrequirement⟩ :=
    exists_mem_of_forall₂ (mapM_eq_ok_iff.mp hslots).flip hsaid
  exact Requirement.ofType_slot hrequirement

/-- Something is demanded of a variable exactly if something is said about it. -/
theorem eq_missing_iff_of_slotOf (h : path.slotOf declared = .ok (some slot)) :
    slot = .missing ↔ path.on declared.name = [] := by
  obtain ⟨slots, hslots, hcombine⟩ := slotOf_eq_ok_iff.mp h
  have hsaid := mapM_eq_ok_iff.mp hslots
  constructor
  · rintro rfl
    have hmissing := Slot.eq_missing_of_combine? hcombine.symm
    refine List.eq_nil_iff_forall_not_mem.mpr fun requirement hrequirement => ?_
    obtain ⟨said, hmem, hslot⟩ := exists_mem_of_forall₂ hsaid hrequirement
    exact Requirement.slot_ne_missing hslot (hmissing said hmem)
  · intro hnil
    rw [hnil] at hsaid
    cases hsaid
    cases hcombine
    rfl

/-- What is kept for a variable depends on its type and on what is said about it. -/
theorem slotOf_congr (htype : declared'.type = declared.type)
    (hon : path'.on declared'.name = path.on declared.name)
    (h : path.slotOf declared = .ok (some slot)) : path'.slotOf declared' = .ok (some slot) := by
  obtain ⟨slots, hslots, hcombine⟩ := slotOf_eq_ok_iff.mp h
  refine slotOf_eq_ok_iff.mpr ⟨slots, ?_, hcombine⟩
  rw [hon]
  exact mapM_eq_ok_iff.mpr ((mapM_eq_ok_iff.mp hslots).imp fun _ _ => Requirement.slot_congr htype)

/-- The slot at a position is the one kept for the variable declared there. -/
theorem slotOf_of_getElem? {declarations : List Variable} {tuple : Tuple} {index : Nat}
    (h : path.tuple declarations = .ok (some tuple))
    (hdeclared : declarations[index]? = some declared) (hslot : tuple[index]? = some slot) :
    path.slotOf declared = .ok (some slot) := by
  obtain ⟨hindex, rfl⟩ := List.getElem?_eq_some_iff.mp hdeclared
  obtain ⟨hindex', rfl⟩ := List.getElem?_eq_some_iff.mp hslot
  exact (forall₂_slotOf h).get hindex hindex'

theorem aligned_of_slotOf (h : path.slotOf declared = .ok (some slot)) :
    slot.Aligned path declared := by
  have htype := ofType_of_slotOf h
  have hmissing : slot = .missing ↔ ∀ requirement ∈ path, requirement.name ≠ declared.name :=
    (eq_missing_iff_of_slotOf h).trans on_eq_nil_iff
  have hnamed : slot ≠ .missing ↔ ∃ requirement ∈ path, requirement.name = declared.name := by
    rw [ne_eq, hmissing]
    push Not
    rfl
  refine ⟨hmissing, ?_, ?_, ?_⟩
  · rw [← hnamed]
    cases slot with
    | missing => simp
    | truth relation value =>
        have hbool : declared.type = .bool := htype
        simp [hbool]
    | range relation region precision =>
        have hnumber : declared.type = .number precision := htype
        simp [hnumber]
  · intro hsome htruth
    cases slot with
    | missing => exact absurd rfl hsome
    | truth relation value => exact absurd rfl (htruth relation value)
    | range relation region precision => exact ⟨relation, region, precision, rfl, htype⟩
  · intro path' declarations' tuple' index declared' slot' htuple hdeclared hslot hsame hon
    have hkept := slotOf_of_getElem? htuple hdeclared hslot
    rw [slotOf_congr hsame hon h] at hkept
    cases hkept
    rfl

end Path

/-! ## All tuples -/

/-- At a position that every row has, the rows have a column. -/
theorem forall₂_getElem?_filterMap {α : Type} {rows : List (List α)} {index : Nat}
    (h : ∀ row ∈ rows, index < row.length) :
    List.Forall₂ (fun row a => row[index]? = some a) rows
      (rows.filterMap fun row => row[index]?) := by
  induction rows with
  | nil => exact .nil
  | cons row rows ih =>
      obtain ⟨hrow, hrows⟩ := List.forall_mem_cons.mp h
      rw [List.filterMap_cons, List.getElem?_eq_getElem hrow]
      exact .cons (List.getElem?_eq_getElem hrow) (ih hrows)

namespace PathTable

variable {table : PathTable} {set : TupleSet}

theorem tupleSet_eq_ok (h : table.tupleSet = .ok set) :
    set.declarations = table.declarations ∧ ∃ outcomes, set.tuples = outcomes.filterMap id ∧
      List.Forall₂ (fun path outcome => Path.tuple path table.declarations = .ok outcome)
        table.paths outcomes := by
  obtain ⟨outcomes, houtcomes, h⟩ := bind_eq_ok h
  cases h
  exact ⟨rfl, outcomes, rfl, mapM_eq_ok_iff.mp houtcomes⟩

/-- Every tuple is the one of some path. -/
theorem exists_path_of_mem (h : table.tupleSet = .ok set) {tuple : Tuple}
    (htuple : tuple ∈ set.tuples) :
    ∃ path ∈ table.paths, Path.tuple path table.declarations = .ok (some tuple) := by
  obtain ⟨-, outcomes, htuples, hpaths⟩ := tupleSet_eq_ok h
  rw [htuples] at htuple
  obtain ⟨outcome, hmem, rfl⟩ := List.mem_filterMap.mp htuple
  exact exists_mem_of_forall₂ hpaths.flip hmem

/-- **Tuples stay aligned with the declarations.**  A table keeps its declarations.  Each path
has at most one tuple, in path order, and the tuple has one slot for each variable, in the
order of declaration, which is aligned with the variable.  The column of a declared name is
the one of the first variable of that name, and has one slot for each tuple, in order. -/
theorem tupleSet_aligned (h : table.tupleSet = .ok set) :
    set.declarations = table.declarations ∧
      (∃ outcomes, set.tuples = outcomes.filterMap id ∧
        List.Forall₂ (fun path outcome => Path.tuple path table.declarations = .ok outcome ∧
          ∀ tuple, outcome = some tuple →
            List.Forall₂ (Slot.Aligned path) table.declarations tuple) table.paths outcomes) ∧
      ∀ declared ∈ table.declarations, ∃ index first column,
        table.declarations[index]? = some first ∧ first.name = declared.name ∧
          (∀ earlier ∈ table.declarations.take index, earlier.name ≠ declared.name) ∧
            set.column? declared.name = some column ∧
              List.Forall₂ (fun tuple slot => tuple[index]? = some slot) set.tuples column := by
  obtain ⟨hdeclarations, outcomes, htuples, hpaths⟩ := tupleSet_eq_ok h
  refine ⟨hdeclarations, ⟨outcomes, htuples, hpaths.imp ?_⟩, ?_⟩
  · rintro path outcome houtcome
    refine ⟨houtcome, ?_⟩
    rintro tuple rfl
    exact (Path.forall₂_slotOf houtcome).imp fun _ _ => Path.aligned_of_slotOf
  · intro declared hdeclared
    have hfound : (table.declarations.findIdx? fun candidate =>
        candidate.name == declared.name).isSome := by
      rw [List.findIdx?_isSome, List.any_eq_true]
      exact ⟨declared, hdeclared, beq_self_eq_true _⟩
    obtain ⟨index, hindex⟩ := Option.isSome_iff_exists.mp hfound
    obtain ⟨hlength, hname, hearlier⟩ := List.findIdx?_eq_some_iff_getElem.mp hindex
    refine ⟨index, table.declarations[index], _, List.getElem?_eq_getElem hlength,
      beq_iff_eq.mp hname, ?_, ?_, forall₂_getElem?_filterMap ?_⟩
    · intro earlier hmem
      obtain ⟨before, hbefore, rfl⟩ := List.mem_take_iff_getElem.mp hmem
      exact fun heq => hearlier before (by omega) (beq_iff_eq.mpr heq)
    · rw [TupleSet.column?, hdeclarations, hindex]
      rfl
    · intro tuple htuple
      obtain ⟨path, -, hpath⟩ := exists_path_of_mem h htuple
      rwa [← (Path.forall₂_slotOf hpath).length_eq]

/-- Two numbers of one name with different precisions, an undeclared name, and a path that is
given up. -/
theorem tupleSet_aligned_repeated_name :
    ∃ (table : PathTable) (set : TupleSet),
      table.declarations = [⟨"y", .num⟩, ⟨"x", .bool⟩, ⟨"y", .int⟩] ∧
      table.paths =
        [[.truth "x" true (.holds true), .truth "x" false (.holds false)],
          [.membership "y" (.compares .notEqual) (.solutions .notEqual (.ofRatio false 3 1)),
            .truth "z" true (.holds true),
            .membership "y" (.compares .less) (.solutions .less (.ofRatio false 9 1))]] ∧
      table.tupleSet = .ok set ∧ set.tuples.length = 1 ∧
      (∃ outcomes, set.tuples = outcomes.filterMap id ∧
        List.Forall₂ (fun path outcome => Path.tuple path table.declarations = .ok outcome ∧
          ∀ tuple, outcome = some tuple →
            List.Forall₂ (Slot.Aligned path) table.declarations tuple) table.paths outcomes) ∧
      ∃ column, set.column? "y" = some column ∧ column.length = 1 := by
  have htuples : (PathTable.mk [⟨"y", .num⟩, ⟨"x", .bool⟩, ⟨"y", .int⟩]
      [[.truth "x" true (.holds true), .truth "x" false (.holds false)],
        [.membership "y" (.compares .notEqual) (.solutions .notEqual (.ofRatio false 3 1)),
          .truth "z" true (.holds true),
          .membership "y" (.compares .less) (.solutions .less (.ofRatio false 9 1))]]
        ).tupleSet.toOption.any (fun set => set.tuples.length = 1) = true := by
    decide +kernel
  obtain ⟨set, hset, hlength⟩ := exists_ok_of_any htuples
  obtain ⟨-, houtcomes, hcolumns⟩ := tupleSet_aligned hset
  obtain ⟨_, _, column, -, -, -, hcolumn, hslots⟩ := hcolumns ⟨"y", .num⟩ List.mem_cons_self
  refine ⟨_, set, rfl, rfl, hset, of_decide_eq_true hlength, houtcomes, column, hcolumn, ?_⟩
  rw [← hslots.length_eq]
  exact of_decide_eq_true hlength

end PathTable
end DecisionTuples
