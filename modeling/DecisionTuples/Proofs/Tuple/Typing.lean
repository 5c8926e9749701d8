import DecisionTuples.Proofs.Tuple.OfPath

/-!
# Requirements that do not fit a declared type

A requirement on a declared variable *misfits* if it is about truth values and the
variable is a number, or the other way round.  Making the tuple of a path fails at the
first variable with a misfit, and the error depends on the variable alone
(`Path.slotOf_eq_error_iff`): neither the other requirements nor their order matter.

Variables are looked at one after the other, and a path that cannot hold is given up at
the first variable that shows it.  So a misfit is reported exactly if its variable is
*reached*: every variable declared before it has a slot on the path.
`PathTable.tupleSet_fails_iff` says so for whole tables, and
`PathTable.tupleSet_hides_misfit` shows a misfit that nobody hears of.
-/

namespace DecisionTuples

/-! ## Kinds -/

/-- What the requirement says about its variable. -/
def Requirement.kind : Requirement → ConditionKind
  | truth _ _ _ => .truth
  | membership _ _ _ => .membership

/-- The kind of requirement that the type has no slot for. -/
def ValueType.unfit : ValueType → ConditionKind
  | bool => .membership
  | number _ => .truth

/-- The error that reports a misfit on the variable. -/
def Variable.mismatch (declared : Variable) : CompileError :=
  .typeMismatch declared.name declared.type declared.type.unfit

theorem Requirement.slot_eq_error_iff {requirement : Requirement} {declared : Variable}
    {error : CompileError} :
    requirement.slot declared = .error error ↔
      requirement.kind = declared.type.unfit ∧ error = declared.mismatch := by
  obtain ⟨name, type⟩ := declared
  cases requirement <;> cases type <;>
    simp [Requirement.slot, Requirement.kind, ValueType.unfit, Variable.mismatch, eq_comm]

/-! ## One path -/

namespace Path

/-- The path requires something of the variable that its type has no slot for. -/
def Misfits (path : Path) (declared : Variable) : Prop :=
  ∃ requirement ∈ path, requirement.name = declared.name ∧
    requirement.kind = declared.type.unfit

/-- The variable is declared, and every variable declared before it has a slot on the
path. -/
def Reaches (path : Path) (declarations : List Variable) (declared : Variable) : Prop :=
  ∃ earlier later, declarations = earlier ++ declared :: later ∧
    ∀ before ∈ earlier, ∃ slot, path.slotOf before = .ok (some slot)

theorem reaches_cons_iff {path : Path} {first declared : Variable} {rest : List Variable} :
    path.Reaches (first :: rest) declared ↔ declared = first ∨
      (∃ slot, path.slotOf first = .ok (some slot)) ∧ path.Reaches rest declared := by
  constructor
  · rintro ⟨earlier, later, heq, hearlier⟩
    cases earlier with
    | nil =>
        cases heq
        exact .inl rfl
    | cons before earlier =>
        cases heq
        obtain ⟨hfirst, hearlier⟩ := List.forall_mem_cons.mp hearlier
        exact .inr ⟨hfirst, earlier, later, rfl, hearlier⟩
  · rintro (rfl | ⟨hfirst, earlier, later, rfl, hearlier⟩)
    · exact ⟨[], rest, rfl, by simp⟩
    · exact ⟨first :: earlier, later, rfl, List.forall_mem_cons.mpr ⟨hfirst, hearlier⟩⟩

/-- A variable has no slot for an error exactly if something on the path misfits, and
the error is the one of the variable. -/
theorem slotOf_eq_error_iff {path : Path} {declared : Variable} {error : CompileError} :
    path.slotOf declared = .error error ↔ path.Misfits declared ∧ error = declared.mismatch := by
  have hslots : path.slotOf declared = .error error ↔
      (path.on declared.name).mapM (Requirement.slot declared) = .error error := by
    rw [slotOf, bind_eq_error_iff]
    simp [pure, Except.pure]
  rw [hslots]
  constructor
  · intro h
    obtain ⟨front, requirement, rest, heq, -, hslot⟩ := mapM_eq_error_iff.mp h
    obtain ⟨hkind, rfl⟩ := Requirement.slot_eq_error_iff.mp hslot
    have hmem : requirement ∈ path.on declared.name := by simp [heq]
    simp only [on, List.mem_filter, beq_iff_eq] at hmem
    exact ⟨⟨requirement, hmem.1, hmem.2, hkind⟩, rfl⟩
  · rintro ⟨⟨requirement, hmem, hname, hkind⟩, rfl⟩
    -- Whichever requirement is the first to misfit, the error is the same.
    cases hall : (path.on declared.name).mapM (Requirement.slot declared) with
    | error error =>
        obtain ⟨-, found, -, -, -, hslot⟩ := mapM_eq_error_iff.mp hall
        rw [(Requirement.slot_eq_error_iff.mp hslot).2]
    | ok slots =>
        have hon : requirement ∈ path.on declared.name := by
          simp [on, hmem, hname]
        obtain ⟨slot, -, hslot⟩ := exists_mem_of_forall₂ (mapM_eq_ok_iff.mp hall) hon
        rw [Requirement.slot_eq_error_iff.mpr ⟨hkind, rfl⟩] at hslot
        cases hslot

/-- Making a tuple fails at the first variable, or at a later one if the first has a
slot. -/
theorem tuple_cons_eq_error_iff {path : Path} {declared : Variable} {rest : List Variable}
    {error : CompileError} :
    path.tuple (declared :: rest) = .error error ↔ path.slotOf declared = .error error ∨
      (∃ slot, path.slotOf declared = .ok (some slot)) ∧ path.tuple rest = .error error := by
  rw [tuple, bind_eq_error_iff]
  refine or_congr Iff.rfl ?_
  constructor
  · rintro ⟨found, hfound, h⟩
    cases found with
    | none => cases h
    | some slot =>
        rcases bind_eq_error_iff.mp h with hrest | ⟨others, -, h⟩
        · exact ⟨⟨slot, hfound⟩, hrest⟩
        · cases h
  · rintro ⟨⟨slot, hslot⟩, hrest⟩
    exact ⟨some slot, hslot, bind_eq_error_iff.mpr (.inl hrest)⟩

/-- The tuple of a path fails exactly if a variable with a misfit is reached. -/
theorem tuple_eq_error_iff {path : Path} {declarations : List Variable} {error : CompileError} :
    path.tuple declarations = .error error ↔ ∃ declared,
      path.Reaches declarations declared ∧ path.Misfits declared ∧ error = declared.mismatch := by
  induction declarations with
  | nil => simp [tuple, Reaches]
  | cons first rest ih =>
      rw [tuple_cons_eq_error_iff, ih, slotOf_eq_error_iff]
      constructor
      · rintro (⟨hmisfits, rfl⟩ | ⟨hslot, declared, hreaches, hmisfits, rfl⟩)
        · exact ⟨first, reaches_cons_iff.mpr (.inl rfl), hmisfits, rfl⟩
        · exact ⟨declared, reaches_cons_iff.mpr (.inr ⟨hslot, hreaches⟩), hmisfits, rfl⟩
      · rintro ⟨declared, hreaches, hmisfits, rfl⟩
        rcases reaches_cons_iff.mp hreaches with rfl | ⟨hslot, hreaches⟩
        · exact .inl ⟨hmisfits, rfl⟩
        · exact .inr ⟨hslot, declared, hreaches, hmisfits, rfl⟩

/-- A path with a tuple has reached every variable. -/
theorem reaches_of_tuple {path : Path} {declarations : List Variable} {tuple : Tuple}
    (h : path.tuple declarations = .ok (some tuple)) {declared : Variable}
    (hdeclared : declared ∈ declarations) : path.Reaches declarations declared := by
  obtain ⟨earlier, later, rfl⟩ := List.append_of_mem hdeclared
  refine ⟨earlier, later, rfl, fun before hbefore => ?_⟩
  obtain ⟨slot, -, hslot⟩ :=
    exists_mem_of_forall₂ (forall₂_slotOf h) (List.mem_append_left _ hbefore)
  exact ⟨slot, hslot⟩

/-- A path with a misfit on a declared variable has no tuple: it fails, or it has been
given up on a variable declared earlier. -/
theorem tuple_of_misfits {path : Path} {declarations : List Variable} {declared : Variable}
    (hdeclared : declared ∈ declarations) (hmisfits : path.Misfits declared) :
    (∃ error, path.tuple declarations = .error error) ∨ path.tuple declarations = .ok none := by
  cases houtcome : path.tuple declarations with
  | error error => exact .inl ⟨error, rfl⟩
  | ok outcome =>
      cases outcome with
      | none => exact .inr rfl
      | some tuple =>
          have hfails := tuple_eq_error_iff.mpr
            ⟨declared, reaches_of_tuple houtcome hdeclared, hmisfits, rfl⟩
          rw [houtcome] at hfails
          cases hfails

end Path

/-! ## Tables -/

namespace PathTable

theorem tupleSet_eq_error_iff {table : PathTable} {error : CompileError} :
    table.tupleSet = .error error ↔ ∃ front path rest, table.paths = front ++ path :: rest ∧
      (∀ before ∈ front, ∃ outcome, before.tuple table.declarations = .ok outcome) ∧
        path.tuple table.declarations = .error error := by
  have hpaths : table.tupleSet = .error error ↔
      (table.paths.mapM fun path => path.tuple table.declarations) = .error error := by
    rw [tupleSet, bind_eq_error_iff]
    simp [pure, Except.pure]
  rw [hpaths, mapM_eq_error_iff]

/-- **Which type errors are reported.**  Making the tuples of a table fails if and only if
some path reaches a variable with a misfit, and the error is always the one of such a
variable.  A path with a misfit never has a tuple: where the table does not fail, the
path has been given up. -/
theorem tupleSet_fails_iff (table : PathTable) :
    ((∃ error, table.tupleSet = .error error) ↔ ∃ path ∈ table.paths, ∃ declared,
        path.Reaches table.declarations declared ∧ path.Misfits declared) ∧
      (∀ error, table.tupleSet = .error error → ∃ path ∈ table.paths, ∃ declared,
        path.Reaches table.declarations declared ∧ path.Misfits declared ∧
          error = declared.mismatch) ∧
      ∀ path ∈ table.paths, ∀ declared ∈ table.declarations, path.Misfits declared →
        (∃ error, table.tupleSet = .error error) ∨
          path.tuple table.declarations = .ok none := by
  -- Of the paths that fail, the first one is the one that makes the table fail.
  have hfails : ∀ path ∈ table.paths, ∀ error, path.tuple table.declarations = .error error →
      ∃ error, table.tupleSet = .error error := by
    intro path hpath error herror
    cases hset : table.tupleSet with
    | error error => exact ⟨error, rfl⟩
    | ok set =>
        obtain ⟨outcomes, houtcomes, -⟩ := bind_eq_ok hset
        obtain ⟨outcome, -, houtcome⟩ := exists_mem_of_forall₂ (mapM_eq_ok_iff.mp houtcomes) hpath
        rw [herror] at houtcome
        cases houtcome
  have hreported : ∀ error, table.tupleSet = .error error → ∃ path ∈ table.paths, ∃ declared,
      path.Reaches table.declarations declared ∧ path.Misfits declared ∧
        error = declared.mismatch := by
    intro error herror
    obtain ⟨front, path, rest, hpaths, -, htuple⟩ := tupleSet_eq_error_iff.mp herror
    exact ⟨path, by simp [hpaths], Path.tuple_eq_error_iff.mp htuple⟩
  refine ⟨⟨?_, ?_⟩, hreported, ?_⟩
  · rintro ⟨error, herror⟩
    obtain ⟨path, hpath, declared, hreaches, hmisfits, -⟩ := hreported error herror
    exact ⟨path, hpath, declared, hreaches, hmisfits⟩
  · rintro ⟨path, hpath, declared, hreaches, hmisfits⟩
    exact hfails path hpath _ (Path.tuple_eq_error_iff.mpr ⟨declared, hreaches, hmisfits, rfl⟩)
  · intro path hpath declared hdeclared hmisfits
    rcases Path.tuple_of_misfits hdeclared hmisfits with ⟨error, herror⟩ | hnone
    · exact .inl (hfails path hpath error herror)
    · exact .inr hnone

/-- The variable of the second declaration is reached and does not fit, behind a path that
is given up. -/
theorem tupleSet_fails_iff_second_path :
    (∃ path ∈ [[Requirement.truth "x" true (.holds true), .truth "x" false (.holds false)],
        [.truth "x" true (.holds true), .truth "y" true (.holds true)]], ∃ declared,
          Path.Reaches path [⟨"x", .bool⟩, ⟨"y", .num⟩] declared ∧ Path.Misfits path declared) ∧
      ∃ error, (PathTable.mk [⟨"x", .bool⟩, ⟨"y", .num⟩]
        [[.truth "x" true (.holds true), .truth "x" false (.holds false)],
          [.truth "x" true (.holds true), .truth "y" true (.holds true)]]).tupleSet =
            .error error := by
  have hfound : ∃ path ∈
      [[Requirement.truth "x" true (.holds true), .truth "x" false (.holds false)],
        [.truth "x" true (.holds true), .truth "y" true (.holds true)]], ∃ declared,
        Path.Reaches path [⟨"x", .bool⟩, ⟨"y", .num⟩] declared ∧ Path.Misfits path declared := by
    refine ⟨_, List.mem_cons_of_mem _ List.mem_cons_self, ⟨"y", .num⟩,
      ⟨[⟨"x", .bool⟩], [], rfl, ?_⟩, ?_⟩
    · intro before hbefore
      obtain rfl := List.mem_singleton.mp hbefore
      exact ⟨.ofTruth true, by decide⟩
    · exact ⟨.truth "y" true (.holds true), by decide, rfl, rfl⟩
  exact ⟨hfound, (tupleSet_fails_iff _).1.mpr hfound⟩

/-- A contradiction on the first variable hides the misfit on the second one; with the
declarations exchanged the misfit is reported. -/
theorem tupleSet_hides_misfit :
    (∃ set, (PathTable.mk [⟨"x", .bool⟩, ⟨"y", .num⟩]
        [[.truth "x" true (.holds true), .truth "x" false (.holds false),
          .truth "y" true (.holds true)]]).tupleSet = .ok set) ∧
      (∃ error, (PathTable.mk [⟨"y", .num⟩, ⟨"x", .bool⟩]
        [[.truth "x" true (.holds true), .truth "x" false (.holds false),
          .truth "y" true (.holds true)]]).tupleSet = .error error) ∧
      Path.Misfits [.truth "x" true (.holds true), .truth "x" false (.holds false),
        .truth "y" true (.holds true)] ⟨"y", .num⟩ :=
  ⟨⟨_, rfl⟩, ⟨_, rfl⟩, .truth "y" true (.holds true), by decide, rfl, rfl⟩

end PathTable
end DecisionTuples
