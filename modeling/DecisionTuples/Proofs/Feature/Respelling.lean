import DecisionTuples.Proofs.Compiler
import DecisionTuples.Proofs.Feature.Meaning

/-!
# Conditions in another spelling

A condition can be spelled in two ways.  A comparison can have its operands exchanged, and
then the comparison between them is the one that holds of the exchanged operands.  A truth
value can be demanded or its opposite ruled out.  `Feature.Respelled` says of two features
that they differ in the spelling of conditions only, anywhere in them: in bodies,
alternatives and nested features.

Which comparison holds of exchanged operands is said here through the order of the
extended line, not through the table that the compiler uses (`Comparison.Mirrors`).

The canonical form forgets the spelling of a condition and nothing else
(`Condition.requirement_eq_iff`).  So two features that differ in spelling have the same
paths and refer to the same names, and a compiler cannot tell them apart
(`Compiler.spelling_irrelevant`).
-/

namespace DecisionTuples

namespace Comparison

variable {written mirrored : Comparison}

/-- The second comparison holds of two operands exactly if the first one holds of them
exchanged. -/
def Mirrors (written mirrored : Comparison) : Prop :=
  ∀ x y : EReal, mirrored.Relates x y ↔ written.Relates y x

/-- Comparisons that hold of the same operands are the same; three pairs of operands tell
all six apart. -/
theorem eq_of_relates {first second : Comparison}
    (h : ∀ x y : EReal, first.Relates x y ↔ second.Relates x y) : first = second := by
  have hbelow := h ⊥ ⊤
  have habove := h ⊤ ⊥
  have hsame := h ⊥ ⊥
  cases first <;> cases second <;> simp [Relates] at hbelow habove hsame ⊢

theorem mirrors_iff : written.Mirrors mirrored ↔ mirrored = written.converse := by
  constructor
  · intro h
    exact eq_of_relates fun x y => (h x y).trans (relates_converse written x y).symm
  · rintro rfl
    exact relates_converse written

end Comparison

namespace Condition

/-- The second condition is the first one in the same or in the other spelling. -/
inductive Respelled : Condition → Condition → Prop
  | same (condition : Condition) : Respelled condition condition
  /-- The number of a comparison moves to the right. -/
  | toRight (name : String) (constant : Number) {written mirrored : Comparison}
      (h : written.Mirrors mirrored) :
      Respelled (comparison name .left constant written) (comparison name .right constant mirrored)
  /-- The number of a comparison moves to the left. -/
  | toLeft (name : String) (constant : Number) {written mirrored : Comparison}
      (h : written.Mirrors mirrored) :
      Respelled (comparison name .right constant written) (comparison name .left constant mirrored)
  /-- Ruling out a truth value becomes demanding its opposite. -/
  | demanded (name : String) (value : Bool) :
      Respelled (truth name .notEqual value) (truth name .equal (!value))
  /-- Demanding a truth value becomes ruling out its opposite. -/
  | ruledOut (name : String) (value : Bool) :
      Respelled (truth name .equal (!value)) (truth name .notEqual value)

theorem facingRight_injective (side : Side) : Function.Injective (facingRight side) := by
  cases side with
  | left =>
      intro first second h
      rw [← first.converse_converse, ← second.converse_converse]
      exact congrArg Comparison.converse h
  | right => exact fun _ _ h => h

end Condition

/-- The solutions of a comparison determine the number it compares with. -/
theorem Region.solutions_injective (comparison : Comparison) :
    Function.Injective (solutions comparison) := by
  intro first second h
  have hinterval := congrArg (fun region => region.first.interval) h
  cases comparison with
  | less => exact congrArg Interval.hi hinterval
  | atMost => exact congrArg Interval.hi hinterval
  | greater => exact congrArg Interval.lo hinterval
  | atLeast => exact congrArg Interval.lo hinterval
  | equal => exact congrArg Interval.lo hinterval
  | notEqual => exact congrArg Interval.lo hinterval

namespace Condition

variable {condition condition' : Condition}

theorem Respelled.requirement (h : condition.Respelled condition') :
    condition.requirement = condition'.requirement := by
  cases h with
  | same => rfl
  | toRight name constant h =>
      rw [Comparison.mirrors_iff.mp h]
      rfl
  | toLeft name constant h =>
      rw [Comparison.mirrors_iff.mp h]
      simp [Condition.requirement, facingRight]
  | demanded => rfl
  | ruledOut name value => simp [Condition.requirement, Equality.resolve]

theorem Respelled.name (h : condition.Respelled condition') : condition.name = condition'.name := by
  rw [← requirement_name, ← requirement_name, h.requirement]

/-- **The canonical form forgets the spelling of a condition and nothing else.** -/
theorem requirement_eq_iff :
    condition.requirement = condition'.requirement ↔ condition.Respelled condition' := by
  refine ⟨fun h => ?_, Respelled.requirement⟩
  cases condition with
  | truth name equality value =>
      cases condition' with
      | truth name' equality' value' =>
          simp only [requirement, Requirement.truth.injEq] at h
          obtain ⟨rfl, hvalue, -⟩ := h
          cases equality with
          | equal =>
              cases equality' with
              | equal =>
                  obtain rfl : value = value' := hvalue
                  exact .same _
              | notEqual =>
                  obtain rfl : value = !value' := hvalue
                  exact .ruledOut name value'
          | notEqual =>
              cases equality' with
              | equal =>
                  obtain rfl : (!value) = value' := hvalue
                  exact .demanded name value
              | notEqual =>
                  obtain rfl : value = value' := Bool.not_inj hvalue
                  exact .same _
      | _ => cases h
  | comparison name side constant written =>
      cases condition' with
      | comparison name' side' constant' written' =>
          simp only [requirement, Requirement.membership.injEq, Relation.compares.injEq] at h
          obtain ⟨rfl, hwritten, hregion⟩ := h
          rw [hwritten] at hregion
          obtain rfl := Region.solutions_injective _ hregion
          cases side with
          | left =>
              cases side' with
              | left =>
                  obtain rfl := facingRight_injective .left hwritten
                  exact .same _
              | right => exact .toRight name constant (Comparison.mirrors_iff.mpr hwritten.symm)
          | right =>
              cases side' with
              | left =>
                  refine .toLeft name constant (Comparison.mirrors_iff.mpr ?_)
                  rw [← written'.converse_converse]
                  exact congrArg Comparison.converse hwritten.symm
              | right =>
                  obtain rfl := facingRight_injective .right hwritten
                  exact .same _
      | _ => cases h
  | membership name interval openness =>
      cases condition' with
      | membership name' interval' openness' =>
          cases h
          exact .same _
      | _ => cases h

instance (condition condition' : Condition) : Decidable (condition.Respelled condition') :=
  decidable_of_iff _ requirement_eq_iff

/-- Conditions that are respelled one by one have the same canonical forms. -/
theorem map_requirement_of_respelled {conditions conditions' : List Condition}
    (h : List.Forall₂ Respelled conditions conditions') :
    conditions.map requirement = conditions'.map requirement := by
  induction h with
  | nil => rfl
  | cons hfirst _ ih => rw [List.map_cons, List.map_cons, hfirst.requirement, ih]

theorem map_name_of_respelled {conditions conditions' : List Condition}
    (h : List.Forall₂ Respelled conditions conditions') :
    conditions.map name = conditions'.map name := by
  induction h with
  | nil => rfl
  | cons hfirst _ ih => rw [List.map_cons, List.map_cons, hfirst.name, ih]

end Condition

/-! ## Decisions and features in another spelling -/

mutual

/-- The two decisions differ in the spelling of conditions only. -/
inductive Decision.Respelled : Decision → Decision → Prop
  | intro {conditions conditions' : List Condition} {body body' : Option (List Decision)}
      {elseIfs elseIfs' : List ElseIf} {otherwise otherwise' : Option (List Decision)}
      (hconditions : List.Forall₂ Condition.Respelled conditions conditions')
      (hbody : BlockRespelled body body') (helseIfs : ElseIfsRespelled elseIfs elseIfs')
      (hotherwise : BlockRespelled otherwise otherwise') :
      Decision.Respelled ⟨conditions, body, elseIfs, otherwise⟩
        ⟨conditions', body', elseIfs', otherwise'⟩

/-- Both blocks are absent, or their decisions differ in spelling only. -/
inductive BlockRespelled : Option (List Decision) → Option (List Decision) → Prop
  | absent : BlockRespelled none none
  | present {decisions decisions' : List Decision} (h : DecisionsRespelled decisions decisions') :
      BlockRespelled (some decisions) (some decisions')

/-- The decisions differ in spelling only, one by one. -/
inductive DecisionsRespelled : List Decision → List Decision → Prop
  | nil : DecisionsRespelled [] []
  | cons {decision decision' : Decision} {rest rest' : List Decision}
      (hfirst : decision.Respelled decision') (hrest : DecisionsRespelled rest rest') :
      DecisionsRespelled (decision :: rest) (decision' :: rest')

/-- The alternatives differ in spelling only, one by one. -/
inductive ElseIfsRespelled : List ElseIf → List ElseIf → Prop
  | nil : ElseIfsRespelled [] []
  | cons {conditions conditions' : List Condition} {body body' : Option (List Decision)}
      {rest rest' : List ElseIf}
      (hconditions : List.Forall₂ Condition.Respelled conditions conditions')
      (hbody : BlockRespelled body body') (hrest : ElseIfsRespelled rest rest') :
      ElseIfsRespelled (⟨conditions, body⟩ :: rest) (⟨conditions', body'⟩ :: rest')

end

mutual

/-- The two features declare the same variables, and differ in the spelling of conditions
only. -/
inductive Feature.Respelled : Feature → Feature → Prop
  | intro (declarations : List Variable) {decisions decisions' : List Decision}
      {features features' : List Feature} (hdecisions : DecisionsRespelled decisions decisions')
      (hfeatures : FeaturesRespelled features features') :
      Feature.Respelled ⟨declarations, decisions, features⟩
        ⟨declarations, decisions', features'⟩

/-- The features differ in spelling only, one by one. -/
inductive FeaturesRespelled : List Feature → List Feature → Prop
  | nil : FeaturesRespelled [] []
  | cons {feature feature' : Feature} {rest rest' : List Feature}
      (hfirst : feature.Respelled feature') (hrest : FeaturesRespelled rest rest') :
      FeaturesRespelled (feature :: rest) (feature' :: rest')

end

/-! ## What does not depend on the spelling -/

mutual

theorem Decision.Respelled.references : ∀ {decision decision' : Decision},
    decision.Respelled decision' → decision.references = decision'.references
  | _, _, .intro hconditions hbody helseIfs hotherwise => by
    rw [Decision.references, Decision.references, Condition.map_name_of_respelled hconditions,
      hbody.references, helseIfs.references, hotherwise.references]

theorem BlockRespelled.references : ∀ {block block' : Option (List Decision)},
    BlockRespelled block block' → blockReferences block = blockReferences block'
  | _, _, .absent => rfl
  | _, _, .present h => h.references

theorem DecisionsRespelled.references : ∀ {decisions decisions' : List Decision},
    DecisionsRespelled decisions decisions' →
      decisionReferences decisions = decisionReferences decisions'
  | _, _, .nil => rfl
  | _, _, .cons hfirst hrest => by
    rw [decisionReferences, decisionReferences, hfirst.references, hrest.references]

theorem ElseIfsRespelled.references : ∀ {elseIfs elseIfs' : List ElseIf},
    ElseIfsRespelled elseIfs elseIfs' → elseIfReferences elseIfs = elseIfReferences elseIfs'
  | _, _, .nil => rfl
  | _, _, .cons hconditions hbody hrest => by
    rw [elseIfReferences, elseIfReferences, Condition.map_name_of_respelled hconditions,
      hbody.references, hrest.references]

end

/-- The construct for which a decision is refused does not depend on how its alternatives
are spelled. -/
theorem firstAlternative?_eq_of_respelled {elseIfs elseIfs' : List ElseIf}
    {otherwise otherwise' : Option (List Decision)} (helseIfs : ElseIfsRespelled elseIfs elseIfs')
    (hotherwise : BlockRespelled otherwise otherwise') :
    firstAlternative? elseIfs otherwise = firstAlternative? elseIfs' otherwise' := by
  cases helseIfs with
  | cons => rfl
  | nil =>
      cases hotherwise with
      | absent => rfl
      | present => rfl

mutual

theorem Decision.Respelled.paths : ∀ {decision decision' : Decision},
    decision.Respelled decision' → decision.paths = decision'.paths
  | _, _, .intro hconditions hbody helseIfs hotherwise => by
    rw [Decision.paths_mk, Decision.paths_mk, firstAlternative?_eq_of_respelled helseIfs hotherwise,
      Condition.map_requirement_of_respelled hconditions, hbody.paths]

theorem BlockRespelled.paths : ∀ {block block' : Option (List Decision)},
    BlockRespelled block block' → blockPaths block = blockPaths block'
  | _, _, .absent => rfl
  | _, _, .present .nil => rfl
  | _, _, .present (.cons hfirst hrest) => by
    rw [blockPaths, blockPaths, hfirst.paths, hrest.paths]

theorem DecisionsRespelled.paths : ∀ {decisions decisions' : List Decision},
    DecisionsRespelled decisions decisions' → forestPaths decisions = forestPaths decisions'
  | _, _, .nil => rfl
  | _, _, .cons hfirst hrest => by
    rw [forestPaths, forestPaths, hfirst.paths, hrest.paths]

end

namespace Feature.Respelled

variable {feature feature' : Feature}

theorem declarations (h : feature.Respelled feature') :
    feature.declarations = feature'.declarations := by
  cases h
  rfl

theorem references (h : feature.Respelled feature') : feature.references = feature'.references := by
  cases h with
  | intro _ hdecisions _ => exact hdecisions.references

theorem pathTable (h : feature.Respelled feature') : feature.pathTable = feature'.pathTable := by
  cases h with
  | intro declarations hdecisions hfeatures =>
      unfold Feature.pathTable
      dsimp only
      rw [hdecisions.paths]
      cases hfeatures with
      | nil => rfl
      | cons => rfl

end Feature.Respelled

/-! ## Compilers -/

theorem Scope.analyze_eq_of_respelled {feature feature' : Feature} (h : feature.Respelled feature')
    (scope : Scope) : scope.analyze feature = scope.analyze feature' := by
  unfold Scope.analyze
  rw [h.declarations, h.references]

namespace Compiler

/-- **The spelling of conditions is irrelevant.**  The canonical form of a condition is kept
by the two changes of spelling and by no other change.  Whatever conditions of a feature
are respelled, a compiler with any options and any scope comes to the same paths, and to
the same tuples, or ends in the same error; and the scope that it keeps is the same. -/
theorem spelling_irrelevant :
    (∀ condition condition' : Condition,
      condition.requirement = condition'.requirement ↔ condition.Respelled condition') ∧
    ∀ feature feature' : Feature, feature.Respelled feature' → ∀ compiler : Compiler,
      compiler.pathTable feature = compiler.pathTable feature' ∧
        compiler.compile feature = compiler.compile feature' := by
  refine ⟨fun _ _ => Condition.requirement_eq_iff, fun feature feature' h compiler => ?_⟩
  have hpaths : compiler.pathTable feature = compiler.pathTable feature' := by
    unfold Compiler.pathTable
    rw [Scope.analyze_eq_of_respelled h, h.pathTable]
  refine ⟨hpaths, ?_⟩
  unfold Compiler.compile
  rw [hpaths]

/-- All four changes of spelling, in a decision and in its body, and the same below a closing
alternative.  The first pair of features has one tuple, the second pair is refused. -/
theorem spelling_irrelevant_nested :
    let three : Number := .ofRatio false 3 1
    let declarations : List Variable := [⟨"x", .num⟩, ⟨"b", .bool⟩]
    let outer : List Condition :=
      [.comparison "x" .left three .atMost, .truth "b" .notEqual true]
    let outer' : List Condition :=
      [.comparison "x" .right three .atLeast, .truth "b" .equal false]
    let inner : List Condition :=
      [.comparison "x" .right .infinity .less, .truth "b" .equal false]
    let inner' : List Condition :=
      [.comparison "x" .left .infinity .greater, .truth "b" .notEqual true]
    let nested (conditions conditions' : List Condition) : Feature :=
      ⟨declarations, [⟨conditions, some [.leaf conditions'], [], none⟩], []⟩
    let refused (conditions conditions' : List Condition) : Feature :=
      ⟨declarations, [⟨conditions, none, [], some [.leaf conditions']⟩], []⟩
    let compiler : Compiler := .new ⟨true⟩
    ((nested outer inner).Respelled (nested outer' inner') ∧
      (∃ set, (compiler.compile (nested outer inner)).2 = .ok set ∧ set.tuples.length = 1) ∧
      compiler.compile (nested outer inner) = compiler.compile (nested outer' inner')) ∧
    (refused outer inner).Respelled (refused outer' inner') ∧
      (compiler.compile (refused outer inner)).2 = .error (.unsupported .otherwise) ∧
      compiler.compile (refused outer inner) = compiler.compile (refused outer' inner') := by
  intro three declarations outer outer' inner inner' nested refused compiler
  have houter : List.Forall₂ Condition.Respelled outer outer' := by decide +kernel
  have hinner : List.Forall₂ Condition.Respelled inner inner' := by decide +kernel
  have hbelow : BlockRespelled (some [.leaf inner]) (some [.leaf inner']) :=
    .present (.cons (.intro hinner .absent .nil .absent) .nil)
  have hnested : (nested outer inner).Respelled (nested outer' inner') :=
    .intro declarations (.cons (.intro houter hbelow .nil .absent) .nil) .nil
  have hrefused : (refused outer inner).Respelled (refused outer' inner') :=
    .intro declarations (.cons (.intro houter .absent .nil hbelow) .nil) .nil
  have hcompiles : (compiler.compile (nested outer inner)).2.toOption.any
      (fun set => set.tuples.length == 1) = true := by decide +kernel
  obtain ⟨set, hset, hlength⟩ := exists_ok_of_any hcompiles
  exact ⟨⟨hnested, ⟨set, hset, eq_of_beq hlength⟩,
    (spelling_irrelevant.2 _ _ hnested compiler).2⟩, hrefused, rfl,
    (spelling_irrelevant.2 _ _ hrefused compiler).2⟩

end Compiler
end DecisionTuples
