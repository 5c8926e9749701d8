import DecisionTuples.Codec.Path
import DecisionTuples.Proofs.Except
import DecisionTuples.Proofs.Feature.Meaning
import DecisionTuples.Proofs.Interval.SegmentList
import DecisionTuples.Tuple.OfPath
import Mathlib.Data.Set.List

/-!
# Assembling plain lists of segments

The way from conditions to tuples once more, with plain lists of segments in the place of
regions.  Here widening an inequality looks up the first segment of its list by an index,
and in a list without segments the index is *out of range*: a fault of its own, which
nothing guards against.

A requirement, a slot, a table or a set of tuples is `bare` if only the lists of its
regions are left.  Taking conditions apart, reading and assembling do the same with and
without regions (`BareRequirement.ofCondition_eq`, `BareTable.decode?_eq`,
`BareTable.tupleSet_bare`).  Whatever has lists that can be made comes from something with
regions, so the index is never out of range (`first_segment_exists`).
-/

namespace DecisionTuples

/-- Why nothing is assembled. -/
inductive Fault where
  /-- The first segment was looked up in a list that has none. -/
  | outOfRange
  /-- The requirements are refused. -/
  | refused (error : CompileError)

/-- What a path requires of one variable. -/
inductive BareRequirement where
  | truth (name : String) (value : Bool) (relation : Relation)
  | membership (name : String) (relation : Relation) (segments : SegmentList)

/-- The demand of one path on one variable. -/
inductive BareSlot where
  | missing
  | truth (relation : Relation) (value : Bool)
  | range (relation : Relation) (segments : SegmentList) (precision : Number)

/-- The requirements of one way through a decision. -/
abbrev BarePath := List BareRequirement

/-- Declared variables and paths. -/
structure BareTable where
  declarations : List Variable
  paths : List BarePath

/-- One slot for each variable. -/
abbrev BareTuple := List BareSlot

/-- Declared variables and the tuples over them. -/
structure BareTupleSet where
  declarations : List Variable
  tuples : List BareTuple

/-! ## Conditions and JSON -/

namespace BareRequirement

def name : BareRequirement → String
  | truth name _ _ => name
  | membership name _ _ => name

/-- What the condition requires. -/
def ofCondition : Condition → Except RegionError BareRequirement
  | .truth name equality value =>
    .ok (truth name (equality.resolve value) (.holds (equality.resolve value)))
  | .comparison name side constant written => do
    let relation : Relation := .compares (Condition.facingRight side written)
    let segments ← SegmentList.ofRelation relation constant
    return membership name relation segments
  | .membership name interval openness =>
    .ok (membership name .within (.single interval openness))

def decodeTruth? (record : Json) : Option BareRequirement := do
  let part := record.part? ["var_name", "should_equal_to", "expression"]
  let name ← (part "var_name").bind Json.asString?
  let value ← (part "should_equal_to").bind Json.asBool?
  let relation ← (part "expression").bind Relation.decodeInner?
  return truth name value relation

def decodeMembership? (record : Json) : Option BareRequirement := do
  let part := record.part? ["var_name", "expression", "interval"]
  let name ← (part "var_name").bind Json.asString?
  let relation ← (part "expression").bind Relation.decodeInner?
  let segments ← (part "interval").bind SegmentList.decode?
  return membership name relation segments

def decode? (json : Json) : Option BareRequirement :=
  match json.tagged? "type" with
  | some ("bool", record) => decodeTruth? record
  | some ("interval", record) => decodeMembership? record
  | _ => none

end BareRequirement

def BareTable.decode? (json : Json) : Option BareTable := do
  let part := json.part? ["variables", "predicates"]
  let declarations ← (part "variables").bind (Json.asList? Variable.decode?)
  let paths ← (part "predicates").bind (Json.asList? (Json.asList? BareRequirement.decode?))
  return ⟨declarations, paths⟩

/-! ## Assembling -/

/-- The slot of a requirement on a declared variable. -/
def BareRequirement.slot (declared : Variable) : BareRequirement → Except Fault BareSlot
  | truth _ value _ =>
    match declared.type with
    | .bool => .ok (.truth (.holds value) value)
    | type => .error (.refused (.typeMismatch declared.name type .truth))
  | membership _ relation segments =>
    match declared.type with
    | .number precision => .ok (.range relation segments precision)
    | type => .error (.refused (.typeMismatch declared.name type .membership))

namespace BareSlot

/-- The slot with an inequality written out as every number but the one where the first of
its segments begins. -/
def widen : BareSlot → Except Fault BareSlot
  | range (.compares .notEqual) segments precision =>
    match segments.primary? with
    | none => .error .outOfRange
    | some first => .ok (range (.compares .notEqual) (.excluding first.interval.lo) precision)
  | slot => .ok slot

/-- The slot that demands what both slots demand, or nothing if they cannot hold
together. -/
def intersect? : BareSlot → BareSlot → Option BareSlot
  | missing, slot => some slot
  | slot, missing => some slot
  | truth relation value, truth _ value' =>
    if value = value' then some (truth relation value) else none
  | range relation segments precision, range relation' segments' _ =>
    (segments.intersect? segments').map fun common =>
      range (Slot.joinRelation relation relation') common precision
  | _, _ => none

end BareSlot

namespace BarePath

/-- The slot of a variable on a path, or none if what the path says about it cannot
hold. -/
def slotOf (path : BarePath) (declared : Variable) : Except Fault (Option BareSlot) := do
  let slots ← (path.filter fun requirement => requirement.name == declared.name).mapM
    (BareRequirement.slot declared)
  let slots ← if 1 < slots.length then slots.mapM BareSlot.widen else .ok slots
  return slots.foldlM BareSlot.intersect? .missing

/-- The tuple of a path over the given variables, or none if the path cannot hold. -/
def tuple (path : BarePath) : List Variable → Except Fault (Option BareTuple)
  | [] => .ok (some [])
  | declared :: rest => do
    match ← path.slotOf declared with
    | none => return none
    | some slot =>
      let others ← path.tuple rest
      return others.map (slot :: ·)

end BarePath

/-- The tuples of all paths that can hold, in path order. -/
def BareTable.tupleSet (table : BareTable) : Except Fault BareTupleSet := do
  let tuples ← table.paths.mapM fun path => path.tuple table.declarations
  return ⟨table.declarations, tuples.filterMap id⟩

/-! ## What is left without regions -/

/-- The requirement with the segments of its region. -/
def Requirement.bare : Requirement → BareRequirement
  | truth name value relation => .truth name value relation
  | membership name relation region => .membership name relation region.segments

/-- The slot with the segments of its region. -/
def Slot.bare : Slot → BareSlot
  | missing => .missing
  | truth relation value => .truth relation value
  | range relation region precision => .range relation region.segments precision

def Path.bare (path : Path) : BarePath := path.map Requirement.bare

def PathTable.bare (table : PathTable) : BareTable :=
  ⟨table.declarations, table.paths.map Path.bare⟩

def TupleSet.bare (set : TupleSet) : BareTupleSet :=
  ⟨set.declarations, set.tuples.map fun tuple => tuple.map Slot.bare⟩

/-- What is assembled with regions, seen without them. -/
def image {α β : Type} (f : α → β) : Except CompileError α → Except Fault β
  | .ok a => .ok (f a)
  | .error e => .error (.refused e)

section

variable {α β γ δ : Type}

theorem image_ne_outOfRange (f : α → β) (x : Except CompileError α) :
    image f x ≠ .error .outOfRange := by
  cases x
  all_goals exact nofun

theorem image_bind {x : Except CompileError α} {f : α → β} {g : γ → δ}
    {step : α → Except CompileError γ} {step' : β → Except Fault δ}
    (h : ∀ a, step' (f a) = image g (step a)) : (image f x >>= step') = image g (x >>= step) := by
  cases x with
  | error e => rfl
  | ok a => exact h a

theorem mapM_image {f : α → β} {g : γ → δ} {step : α → Except CompileError γ}
    {step' : β → Except Fault δ} (h : ∀ a, step' (f a) = image g (step a)) (xs : List α) :
    (xs.map f).mapM step' = image (List.map g) (xs.mapM step) := by
  induction xs with
  | nil => rfl
  | cons x xs ih =>
      rw [List.map_cons, List.mapM_cons, List.mapM_cons, h, ih]
      refine image_bind fun first => ?_
      exact image_bind fun others => rfl

end

theorem mapM_option_map {α β γ : Type} (read : α → Option β) (f : β → γ) (xs : List α) :
    xs.mapM (fun x => (read x).map f) = (xs.mapM read).map (List.map f) := by
  induction xs with
  | nil => rfl
  | cons x xs ih =>
      rw [List.mapM_cons, List.mapM_cons, ih]
      cases read x with
      | none => rfl
      | some first => cases xs.mapM read <;> rfl

theorem Json.asList?_option_map {α β : Type} (decode : Json → Option α) (f : α → β) (json : Json) :
    json.asList? (fun each => (decode each).map f) = (json.asList? decode).map (List.map f) := by
  cases json with
  | arr items => exact mapM_option_map decode f items
  | _ => rfl

/-! ## The same with and without regions -/

namespace BareRequirement

@[simp] theorem name_bare (requirement : Requirement) : requirement.bare.name = requirement.name := by
  cases requirement
  all_goals rfl

/-- No condition is refused, and the segments are those of its region. -/
theorem ofCondition_eq (condition : Condition) :
    ofCondition condition = .ok condition.requirement.bare := by
  cases condition with
  | truth name equality value => rfl
  | comparison name side constant written =>
      rw [ofCondition, SegmentList.ofRelation_eq]
      rfl
  | membership name interval openness => rfl

theorem slot_bare (declared : Variable) (requirement : Requirement) :
    requirement.bare.slot declared = image Slot.bare (requirement.slot declared) := by
  obtain ⟨name, type⟩ := declared
  cases requirement <;> cases type <;> rfl

theorem decodeTruth?_eq (record : Json) :
    decodeTruth? record = (Requirement.decodeTruth? record).map Requirement.bare := by
  simp [decodeTruth?, Requirement.decodeTruth?, Option.map_bind, Function.comp_def,
    Requirement.bare]

theorem decodeMembership?_eq (record : Json) :
    decodeMembership? record = (Requirement.decodeMembership? record).map Requirement.bare := by
  have hsegments : SegmentList.decode? = fun json => (Region.decode? json).map Region.segments :=
    funext SegmentList.decode?_eq
  simp [decodeMembership?, Requirement.decodeMembership?, hsegments, Option.map_bind,
    Option.bind_map, Option.bind_assoc, Function.comp_def, Requirement.bare]

theorem decode?_eq (json : Json) :
    decode? json = (Requirement.decode? json).map Requirement.bare := by
  unfold decode? Requirement.decode?
  rcases json.tagged? "type" with _ | ⟨kind, record⟩
  · rfl
  · by_cases hbool : kind = "bool"
    · subst hbool
      exact decodeTruth?_eq record
    · by_cases hinterval : kind = "interval"
      · subst hinterval
        exact decodeMembership?_eq record
      · simp [hbool, hinterval]

end BareRequirement

namespace BareSlot

/-- A slot with a region has a first segment, so it can be widened. -/
theorem widen_bare (slot : Slot) : slot.bare.widen = .ok slot.widen.bare := by
  cases slot with
  | missing => rfl
  | truth relation value => rfl
  | range relation region precision =>
      rcases relation with comparison | value | _
      · cases comparison with
        | notEqual =>
            rw [Slot.bare, widen, SegmentList.primary?_segments]
            dsimp only
            rw [← SegmentList.segments_excluding]
            rfl
        | _ => rfl
      · rfl
      · rfl

theorem intersect?_bare (a b : Slot) :
    a.bare.intersect? b.bare = (a.intersect? b).map Slot.bare := by
  cases a with
  | missing => cases b <;> rfl
  | truth relation value =>
      cases b with
      | missing => rfl
      | truth relation' value' =>
          by_cases h : value = value' <;> simp [Slot.bare, intersect?, Slot.intersect?, h]
      | range relation' region' precision' => rfl
  | range relation region precision =>
      cases b with
      | missing => rfl
      | truth relation' value' => rfl
      | range relation' region' precision' =>
          simp only [Slot.bare, intersect?, Slot.intersect?, SegmentList.intersect?_segments,
            Option.map_map]
          rfl

theorem foldlM_bare (slots : List Slot) (start : Slot) :
    (slots.map Slot.bare).foldlM intersect? start.bare =
      (slots.foldlM Slot.intersect? start).map Slot.bare := by
  induction slots generalizing start with
  | nil => rfl
  | cons slot slots ih =>
      rw [List.map_cons, List.foldlM_cons, List.foldlM_cons, intersect?_bare]
      cases start.intersect? slot with
      | none => rfl
      | some next => exact ih next

theorem mapM_widen_bare (slots : List Slot) :
    (slots.map Slot.bare).mapM widen = .ok ((slots.map Slot.widen).map Slot.bare) := by
  induction slots with
  | nil => rfl
  | cons slot slots ih =>
      rw [List.map_cons, List.mapM_cons, widen_bare, ih]
      rfl

end BareSlot

namespace BarePath

theorem slotOf_bare (path : Path) (declared : Variable) :
    path.bare.slotOf declared = image (Option.map Slot.bare) (path.slotOf declared) := by
  have hon : path.bare.filter (fun requirement => requirement.name == declared.name) =
      (path.on declared.name).map Requirement.bare := by
    rw [Path.bare, List.filter_map, Path.on]
    congr 1
    refine List.filter_congr fun requirement _ => ?_
    rw [Function.comp_apply, BareRequirement.name_bare]
  unfold slotOf Path.slotOf
  rw [hon, mapM_image (BareRequirement.slot_bare declared)]
  refine image_bind fun slots => ?_
  rw [List.length_map, Slot.combine?, Slot.intersectAll?]
  split
  · rw [BareSlot.mapM_widen_bare]
    exact congrArg Except.ok (BareSlot.foldlM_bare _ .missing)
  · exact congrArg Except.ok (BareSlot.foldlM_bare _ .missing)

theorem tuple_bare (declarations : List Variable) (path : Path) :
    path.bare.tuple declarations =
      image (Option.map (List.map Slot.bare)) (path.tuple declarations) := by
  induction declarations with
  | nil => rfl
  | cons declared rest ih =>
      rw [tuple, Path.tuple, slotOf_bare]
      refine image_bind fun slot => ?_
      cases slot with
      | none => rfl
      | some slot =>
          rw [Option.map_some, ih]
          refine image_bind fun others => ?_
          cases others
          all_goals rfl

end BarePath

namespace BareTable

/-- Assembling does the same with and without regions. -/
theorem tupleSet_bare (table : PathTable) :
    table.bare.tupleSet = image TupleSet.bare table.tupleSet := by
  unfold tupleSet PathTable.tupleSet
  have hpaths : (table.paths.map Path.bare).mapM (fun path => path.tuple table.declarations) =
      image (List.map (Option.map (List.map Slot.bare)))
        (table.paths.mapM fun path => path.tuple table.declarations) :=
    mapM_image (BarePath.tuple_bare table.declarations) table.paths
  rw [PathTable.bare, hpaths]
  refine image_bind fun tuples => ?_
  have hkept : (tuples.map (Option.map (List.map Slot.bare))).filterMap id =
      (tuples.filterMap id).map (List.map Slot.bare) := by
    rw [List.filterMap_map, List.map_filterMap]
    rfl
  rw [hkept]
  rfl

theorem decode?_eq (json : Json) :
    decode? json = (PathTable.decode? json).map PathTable.bare := by
  have hpath : Json.asList? BareRequirement.decode? =
      fun json => (Path.decode? json).map Path.bare := by
    rw [funext BareRequirement.decode?_eq]
    exact funext (Json.asList?_option_map Requirement.decode? Requirement.bare)
  have hpaths : Json.asList? (Json.asList? BareRequirement.decode?) =
      fun json => (json.asList? Path.decode?).map (List.map Path.bare) := by
    rw [hpath]
    exact funext (Json.asList?_option_map Path.decode? Path.bare)
  simp [decode?, PathTable.decode?, hpaths, Option.map_bind, Option.bind_map, Option.bind_assoc,
    Function.comp_def, PathTable.bare]

end BareTable

/-! ## Lists that can be made -/

/-- The segments of the requirement, if it has any, can be made. -/
def BareRequirement.Made : BareRequirement → Prop
  | truth _ _ _ => True
  | membership _ _ segments => segments.Made

/-- The segments of the slot, if it has any, can be made. -/
def BareSlot.Made : BareSlot → Prop
  | missing => True
  | truth _ _ => True
  | range _ segments _ => segments.Made

def BareTable.Made (table : BareTable) : Prop :=
  ∀ path ∈ table.paths, ∀ requirement ∈ path, requirement.Made

def BareTupleSet.Made (set : BareTupleSet) : Prop :=
  ∀ tuple ∈ set.tuples, ∀ slot ∈ tuple, slot.Made

theorem Requirement.made_bare (requirement : Requirement) : requirement.bare.Made := by
  cases requirement with
  | truth name value relation => trivial
  | membership name relation region => exact SegmentList.made_segments region

theorem Slot.made_bare (slot : Slot) : slot.bare.Made := by
  cases slot with
  | missing => trivial
  | truth relation value => trivial
  | range relation region precision => exact SegmentList.made_segments region

theorem PathTable.made_bare (table : PathTable) : table.bare.Made := by
  intro path hpath requirement hrequirement
  obtain ⟨path, -, rfl⟩ := List.mem_map.mp hpath
  obtain ⟨requirement, -, rfl⟩ := List.mem_map.mp hrequirement
  exact requirement.made_bare

theorem TupleSet.made_bare (set : TupleSet) : set.bare.Made := by
  intro tuple htuple slot hslot
  obtain ⟨tuple, -, rfl⟩ := List.mem_map.mp htuple
  obtain ⟨slot, -, rfl⟩ := List.mem_map.mp hslot
  exact slot.made_bare

/-- What has segments that can be made has them from a region. -/
theorem BareRequirement.Made.exists_bare {requirement : BareRequirement} (h : requirement.Made) :
    ∃ original : Requirement, original.bare = requirement := by
  cases requirement with
  | truth name value relation => exact ⟨.truth name value relation, rfl⟩
  | membership name relation segments =>
      obtain ⟨region, rfl⟩ := SegmentList.made_iff_exists_region.mp h
      exact ⟨.membership name relation region, rfl⟩

theorem exists_map_eq {α β : Type} {f : α → β} {ys : List β} (h : ∀ y ∈ ys, ∃ x, f x = y) :
    ∃ xs : List α, xs.map f = ys := by
  have hrange : ys ∈ Set.range (List.map f) := by
    rw [Set.range_list_map]
    exact h
  exact hrange

theorem BareTable.Made.exists_bare {table : BareTable} (h : table.Made) :
    ∃ original : PathTable, original.bare = table := by
  obtain ⟨declarations, paths⟩ := table
  have hpath : ∀ path ∈ paths, ∃ original : Path, original.bare = path := fun path hpath =>
    exists_map_eq fun requirement hrequirement => (h path hpath requirement hrequirement).exists_bare
  obtain ⟨originals, rfl⟩ := exists_map_eq hpath
  exact ⟨⟨declarations, originals⟩, rfl⟩

/-- Every path of a lowered feature is made of the requirements of written conditions. -/
theorem forall₂_ofCondition {feature : Feature} {table : PathTable}
    (h : feature.pathTable = .ok table) :
    List.Forall₂ (fun conditions path => conditions.mapM BareRequirement.ofCondition = .ok path)
      feature.writtenPaths table.bare.paths := by
  rw [Feature.eq_of_pathTable h, PathTable.bare, List.map_map, List.forall₂_map_right_iff,
    List.forall₂_same]
  intro conditions _
  rw [mapM_eq_ok_iff, Function.comp_apply, Path.bare, List.map_map, List.forall₂_map_right_iff,
    List.forall₂_same]
  exact fun condition _ => BareRequirement.ofCondition_eq condition

/-- **Every list of segments has a first one.**  The lists that can be made, by any ways and
in any number of steps, are not empty, so that the index of the first segment is in range;
they are just the regions.  The paths of a lowered feature are the lowered conditions on
its ways, and their lists can be made, as can those of a table that is read from JSON.
Assembling such a table does not look up a first segment where there is none, and the lists
in its tuples can be made again.  Reading and assembling are those of the program. -/
theorem first_segment_exists :
    (∀ segments : SegmentList, segments.Made →
      segments ≠ [] ∧ ∃ first, segments.primary? = some first) ∧
    (∀ segments : SegmentList, segments.Made ↔ ∃ region : Region, region.segments = segments) ∧
    (∀ (feature : Feature) (table : PathTable), feature.pathTable = .ok table →
      List.Forall₂ (fun conditions path => conditions.mapM BareRequirement.ofCondition = .ok path)
        feature.writtenPaths table.bare.paths ∧ table.bare.Made) ∧
    (∀ json, BareTable.decode? json = (PathTable.decode? json).map PathTable.bare) ∧
    (∀ json table, BareTable.decode? json = some table → table.Made) ∧
    (∀ table : PathTable, table.bare.tupleSet = image TupleSet.bare table.tupleSet) ∧
    ∀ table : BareTable, table.Made →
      table.tupleSet ≠ .error .outOfRange ∧ ∀ set, table.tupleSet = .ok set → set.Made := by
  refine ⟨fun segments h => ⟨h.ne_nil, h.exists_primary⟩, fun segments =>
    SegmentList.made_iff_exists_region, fun feature table h => ⟨forall₂_ofCondition h, ?_⟩,
    BareTable.decode?_eq, fun json table h => ?_, BareTable.tupleSet_bare, fun table h => ?_⟩
  · exact table.made_bare
  · rw [BareTable.decode?_eq] at h
    obtain ⟨original, -, rfl⟩ := Option.map_eq_some_iff.mp h
    exact original.made_bare
  · obtain ⟨original, rfl⟩ := h.exists_bare
    rw [BareTable.tupleSet_bare]
    refine ⟨image_ne_outOfRange _ _, fun set hset => ?_⟩
    cases hresult : original.tupleSet with
    | error e =>
        rw [hresult] at hset
        cases hset
    | ok found =>
        rw [hresult] at hset
        cases hset
        exact found.made_bare

/-- Two inequalities on one variable are written, read and assembled, each of them being
widened.  If the first one had no segments, the index would be out of range. -/
theorem first_segment_exists_two_inequalities :
    ∃ (feature : Feature) (table : PathTable) (read : BareTable) (set : BareTupleSet)
      (widened : SegmentList),
      feature = ⟨[⟨"x", .num⟩], [.leaf [.comparison "x" .right (.ofRatio false 3 1) .notEqual,
        .comparison "x" .right (.ofRatio false 5 1) .notEqual]], []⟩ ∧
      feature.pathTable = .ok table ∧ table.bare.Made ∧
      BareTable.decode? table.encode = some read ∧ read.Made ∧
      read.tupleSet = .ok set ∧ set.Made ∧ set.tuples.length = 1 ∧
      SegmentList.intersect? (.excluding (.ofRatio false 3 1)) (.excluding (.ofRatio false 5 1)) =
        some widened ∧ (∃ first, widened.primary? = some first) ∧
      (BareTable.mk [⟨"x", .num⟩] [[.membership "x" (.compares .notEqual) [],
        .membership "x" .within []]]).tupleSet = .error .outOfRange := by
  let feature : Feature := ⟨[⟨"x", .num⟩],
    [.leaf [.comparison "x" .right (.ofRatio false 3 1) .notEqual,
      .comparison "x" .right (.ofRatio false 5 1) .notEqual]], []⟩
  let table : PathTable := ⟨feature.declarations,
    [feature.decisions.flatMap fun decision => decision.conditions.map Condition.requirement]⟩
  have htable : feature.pathTable = .ok table := rfl
  have hreads : ((BareTable.decode? table.encode).bind fun read => read.tupleSet.toOption).any
      (fun set => set.tuples.length = 1) = true := by
    decide +kernel
  have hwidens : (SegmentList.intersect? (.excluding (.ofRatio false 3 1))
      (.excluding (.ofRatio false 5 1))).isSome = true := by
    decide +kernel
  obtain ⟨hfirst, -, hlowered, -, hdecoded, -, hassembled⟩ := first_segment_exists
  obtain ⟨widened, hwidened⟩ := Option.isSome_iff_exists.mp hwidens
  have hmade : widened.Made := .intersect (.excluding _) (.excluding _) hwidened
  cases hread : BareTable.decode? table.encode with
  | none =>
      rw [hread] at hreads
      cases hreads
  | some read =>
      rw [hread] at hreads
      obtain ⟨set, hset, hlength⟩ := exists_ok_of_any hreads
      have hreadMade := hdecoded _ _ hread
      exact ⟨feature, table, read, set, widened, rfl, htable, (hlowered _ _ htable).2, hread,
        hreadMade, hset, (hassembled read hreadMade).2 set hset, of_decide_eq_true hlength,
        hwidened, (hfirst widened hmade).2, rfl⟩

end DecisionTuples
