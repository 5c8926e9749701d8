import DecisionTuples.Codec.Feature
import DecisionTuples.Grammar.Parse
import DecisionTuples.Proofs.Codec.Record
import DecisionTuples.Proofs.Except

/-!
# Features are read back

The plain numbers of a feature are the precisions of its declarations and the constants
of its comparisons, those of every alternative and every nested feature among them.  The
bounds of intervals are not plain.

Decisions and features are read down to a depth; what was written is read back as soon as
the depth is that of the JSON value (`Decision.decodeWithin?_encode`,
`Feature.decodeWithin?_encode`).  Both are inductions on the depth: the decisions and
features inside a value are less deep than the value.
-/

namespace DecisionTuples

/-! ## Declarations and conditions -/

/-- The precision of a number type. -/
def ValueType.plainNumbers (type : ValueType) : List Number := type.precision?.toList

theorem ValueType.decode?_encode (type : ValueType) :
    decode? type.encode = if AllFinite type.plainNumbers then some type else none := by
  cases type with
  | bool => rfl
  | number precision =>
      simp [decode?, encode, plainNumbers, precision?, Json.tagged?, Json.part?, Json.lookup?,
        Number.asNumber?_encode]

def Variable.plainNumbers (declared : Variable) : List Number := declared.type.plainNumbers

theorem Variable.decode?_encode (declared : Variable) :
    decode? declared.encode = if AllFinite declared.plainNumbers then some declared else none := by
  simp [decode?, encode, Json.part?, Json.lookup?, Json.asString?, ValueType.decode?_encode]
  rfl

theorem Variable.asList?_map_encode (declarations : List Variable) :
    Json.asList? decode? (.arr (declarations.map encode)) =
      if AllFinite (declarations.flatMap plainNumbers) then some declarations else none :=
  Json.asList?_map_plain fun declared _ => declared.decode?_encode

namespace Condition

/-- The constant of a comparison. -/
def plainNumbers : Condition → List Number
  | comparison _ _ constant _ => [constant]
  | _ => []

theorem decode?_encode (condition : Condition) :
    decode? condition.encode =
      if AllFinite condition.plainNumbers then some condition else none := by
  cases condition with
  | truth name equality value =>
      have hread : decode? (truth name equality value).encode =
          (Equality.ofName? equality.name).bind fun equality =>
            some (truth name equality value) := rfl
      rw [hread, Equality.ofName?_name]
      rfl
  | comparison name side constant written =>
      have hread : decode? (comparison name side constant written).encode =
          (Side.ofName? side.name).bind fun side => constant.encode.asNumber? >>= fun constant =>
            (Comparison.ofName? written.name).bind fun written =>
              some (comparison name side constant written) := rfl
      rw [hread, Side.ofName?_name, Option.bind_some, Number.asNumber?_encode, bind_ite_some,
        Comparison.ofName?_name, Option.bind_some]
      simp only [plainNumbers, allFinite_singleton]
  | membership name interval openness =>
      have hread : decode? (membership name interval openness).encode =
          (Interval.decode? interval.encode).bind fun interval =>
            (Openness.decode? openness.encode).bind fun openness =>
              some (membership name interval openness) := rfl
      rw [hread, Interval.decode?_encode, Option.bind_some, Openness.decode?_encode]
      rfl

theorem decodeAll?_encodeAll (conditions : List Condition) :
    decodeAll? (encodeAll conditions) =
      if AllFinite (conditions.flatMap plainNumbers) then some conditions else none :=
  Json.asList?_map_plain fun condition _ => condition.decode?_encode

end Condition

/-! ## Decisions -/

mutual

/-- The constants of all comparisons of a decision, in its body and its alternatives
too. -/
def Decision.plainNumbers : Decision → List Number
  | ⟨conditions, body, elseIfs, otherwise⟩ =>
    conditions.flatMap Condition.plainNumbers ++ (blockPlainNumbers body ++
      (elseIfPlainNumbers elseIfs ++ blockPlainNumbers otherwise))

/-- The constants between braces, if there are any. -/
def blockPlainNumbers : Option (List Decision) → List Number
  | none => []
  | some decisions => decisionPlainNumbers decisions

/-- The constants of several decisions. -/
def decisionPlainNumbers : List Decision → List Number
  | [] => []
  | decision :: rest => decision.plainNumbers ++ decisionPlainNumbers rest

/-- The constants of several alternatives. -/
def elseIfPlainNumbers : List ElseIf → List Number
  | [] => []
  | ⟨conditions, body⟩ :: rest =>
    conditions.flatMap Condition.plainNumbers ++ blockPlainNumbers body ++
      elseIfPlainNumbers rest

end

theorem decisionPlainNumbers_eq (decisions : List Decision) :
    decisionPlainNumbers decisions = decisions.flatMap Decision.plainNumbers := by
  induction decisions with
  | nil => rfl
  | cons decision rest ih => rw [decisionPlainNumbers, ih, List.flatMap_cons]

theorem encodeDecisions_eq (decisions : List Decision) :
    encodeDecisions decisions = decisions.map Decision.encode := by
  induction decisions with
  | nil => rfl
  | cons decision rest ih => rw [encodeDecisions, ih, List.map_cons]

namespace ElseIf

def encode (alternative : ElseIf) : Json :=
  .obj [("conditions", Condition.encodeAll alternative.conditions),
    ("body", encodeBody alternative.body)]

def plainNumbers (alternative : ElseIf) : List Number :=
  alternative.conditions.flatMap Condition.plainNumbers ++ blockPlainNumbers alternative.body

end ElseIf

theorem encodeElseIfs_eq (elseIfs : List ElseIf) :
    encodeElseIfs elseIfs = elseIfs.map ElseIf.encode := by
  induction elseIfs with
  | nil => rfl
  | cons alternative rest ih =>
      obtain ⟨conditions, body⟩ := alternative
      rw [encodeElseIfs, ih, List.map_cons]
      rfl

theorem elseIfPlainNumbers_eq (elseIfs : List ElseIf) :
    elseIfPlainNumbers elseIfs = elseIfs.flatMap ElseIf.plainNumbers := by
  induction elseIfs with
  | nil => rfl
  | cons alternative rest ih =>
      obtain ⟨conditions, body⟩ := alternative
      rw [elseIfPlainNumbers, ih, List.flatMap_cons]
      rfl

/-! ### Depth -/

namespace Json

theorem depth_pos (json : Json) : 0 < json.depth := by
  cases json <;> simp [depth]

/-- Every item is at most as deep as the deepest one. -/
theorem depth_le_depthItems {α : Type} (encode : α → Json) {x : α} {xs : List α}
    (h : x ∈ xs) : (encode x).depth ≤ depthItems (xs.map encode) := by
  induction xs with
  | nil => cases h
  | cons first rest ih =>
      rw [List.map_cons, depthItems]
      rcases List.mem_cons.mp h with rfl | hrest
      · exact Nat.le_max_left ..
      · exact Nat.le_trans (ih hrest) (Nat.le_max_right ..)

end Json

namespace Decision

/-- The decoder reads back what is written for the decision. -/
def ReadBack (decode : Json → Option Decision) (decision : Decision) : Prop :=
  decode decision.encode = if AllFinite decision.plainNumbers then some decision else none

variable {decode : Json → Option Decision}

theorem asList?_encodeDecisions {decisions : List Decision}
    (h : ∀ d ∈ decisions, d.ReadBack decode) :
    Json.asList? decode (.arr (encodeDecisions decisions)) =
      if AllFinite (decisionPlainNumbers decisions) then some decisions else none := by
  rw [encodeDecisions_eq, decisionPlainNumbers_eq]
  exact Json.asList?_map_plain h

theorem asOptional?_encodeBody {block : Option (List Decision)}
    (h : ∀ decisions ∈ block, ∀ d ∈ decisions, d.ReadBack decode) :
    Json.asOptional? (Json.asList? decode) (some (encodeBody block)) =
      if AllFinite (blockPlainNumbers block) then some block else none := by
  cases block with
  | none => rfl
  | some decisions =>
      change (Json.asList? decode (.arr (encodeDecisions decisions))).map some = _
      rw [asList?_encodeDecisions (h decisions rfl), blockPlainNumbers]
      split <;> rfl

/-- The closing alternative holds its decisions in a record of its own. -/
theorem asOptional?_encodeOtherwise (block : Option (List Decision)) :
    Json.asOptional? (decodeOtherwise? decode) (some (encodeOtherwise block)) =
      Json.asOptional? (Json.asList? decode) (some (encodeBody block)) := by
  cases block <;> rfl

theorem decodeElseIf?_encode {alternative : ElseIf}
    (h : ∀ decisions ∈ alternative.body, ∀ d ∈ decisions, d.ReadBack decode) :
    decodeElseIf? decode alternative.encode =
      if AllFinite alternative.plainNumbers then some alternative else none := by
  obtain ⟨conditions, body⟩ := alternative
  simp [decodeElseIf?, ElseIf.encode, ElseIf.plainNumbers, Json.part?, Json.lookup?,
    Condition.decodeAll?_encodeAll, asOptional?_encodeBody h, ite_and]

/-- A decision is read back at a depth if the decisions inside it are read back one level
further down. -/
theorem readBack_succ {depth : Nat} {decision : Decision}
    (hbody : ∀ decisions ∈ decision.body, ∀ d ∈ decisions, d.ReadBack (decodeWithin? depth))
    (helseIfs : ∀ alternative ∈ decision.elseIfs, ∀ decisions ∈ alternative.body,
      ∀ d ∈ decisions, d.ReadBack (decodeWithin? depth))
    (hotherwise : ∀ decisions ∈ decision.otherwise, ∀ d ∈ decisions,
      d.ReadBack (decodeWithin? depth)) :
    decision.ReadBack (decodeWithin? (depth + 1)) := by
  obtain ⟨conditions, body, elseIfs, otherwise⟩ := decision
  have hlist : Json.asList? (decodeElseIf? (decodeWithin? depth)) (.arr (encodeElseIfs elseIfs)) =
      if AllFinite (elseIfPlainNumbers elseIfs) then some elseIfs else none := by
    rw [encodeElseIfs_eq, elseIfPlainNumbers_eq]
    exact Json.asList?_map_plain fun alternative hmem =>
      decodeElseIf?_encode (helseIfs alternative hmem)
  simp [ReadBack, decodeWithin?, encode, plainNumbers, Json.part?, Json.lookup?,
    Condition.decodeAll?_encodeAll, asOptional?_encodeOtherwise,
    asOptional?_encodeBody hbody, asOptional?_encodeBody hotherwise, hlist, ite_and]

/-- Decisions between braces lie less deep than the value of the braces. -/
theorem depth_lt_encodeBody {block : Option (List Decision)} {decisions : List Decision}
    (hblock : decisions ∈ block) {d : Decision} (hd : d ∈ decisions) :
    d.encode.depth < (encodeBody block).depth := by
  cases hblock
  rw [encodeBody, encodeDecisions_eq, Json.depth]
  exact Nat.lt_succ_of_le (Json.depth_le_depthItems _ hd)

theorem depth_lt_encodeOtherwise {block : Option (List Decision)} {decisions : List Decision}
    (hblock : decisions ∈ block) {d : Decision} (hd : d ∈ decisions) :
    d.encode.depth < (encodeOtherwise block).depth := by
  have hbody := depth_lt_encodeBody hblock hd
  cases hblock
  simp only [encodeOtherwise, encodeBody, Json.depth, Json.depthFields] at hbody ⊢
  omega

theorem depth_lt_encodeElseIfs {elseIfs : List ElseIf} {alternative : ElseIf}
    (h : alternative ∈ elseIfs) {decisions : List Decision}
    (hblock : decisions ∈ alternative.body) {d : Decision} (hd : d ∈ decisions) :
    d.encode.depth < Json.depthItems (encodeElseIfs elseIfs) := by
  have hbody := depth_lt_encodeBody hblock hd
  have hitem : alternative.encode.depth ≤ Json.depthItems (encodeElseIfs elseIfs) := by
    rw [encodeElseIfs_eq]
    exact Json.depth_le_depthItems _ h
  simp only [ElseIf.encode, Json.depth, Json.depthFields] at hitem
  omega

/-- A decision is read back at the depth of its value, and at every greater one. -/
theorem decodeWithin?_encode (depth : Nat) :
    ∀ decision : Decision, decision.encode.depth ≤ depth →
      decision.ReadBack (decodeWithin? depth) := by
  induction depth with
  | zero => exact fun decision h => absurd decision.encode.depth_pos (Nat.not_lt.mpr h)
  | succ depth ih =>
      intro decision h
      obtain ⟨conditions, body, elseIfs, otherwise⟩ := decision
      simp only [encode, Json.depth, Json.depthFields] at h
      apply readBack_succ
      · intro decisions hblock d hd
        have hinside : d.encode.depth < (encodeBody body).depth := depth_lt_encodeBody hblock hd
        exact ih d (by omega)
      · intro alternative hmem decisions hblock d hd
        have hinside : d.encode.depth < Json.depthItems (encodeElseIfs elseIfs) :=
          depth_lt_encodeElseIfs hmem hblock hd
        exact ih d (by omega)
      · intro decisions hblock d hd
        have hinside : d.encode.depth < (encodeOtherwise otherwise).depth :=
          depth_lt_encodeOtherwise hblock hd
        exact ih d (by omega)

end Decision

/-! ## Features -/

mutual

/-- The precisions and constants of a feature and of the features in it. -/
def Feature.plainNumbers : Feature → List Number
  | ⟨declarations, decisions, features⟩ =>
    declarations.flatMap Variable.plainNumbers ++
      (decisionPlainNumbers decisions ++ featurePlainNumbers features)

/-- The precisions and constants of several features. -/
def featurePlainNumbers : List Feature → List Number
  | [] => []
  | feature :: rest => feature.plainNumbers ++ featurePlainNumbers rest

end

theorem featurePlainNumbers_eq (features : List Feature) :
    featurePlainNumbers features = features.flatMap Feature.plainNumbers := by
  induction features with
  | nil => rfl
  | cons feature rest ih => rw [featurePlainNumbers, ih, List.flatMap_cons]

theorem encodeFeatures_eq (features : List Feature) :
    encodeFeatures features = features.map Feature.encode := by
  induction features with
  | nil => rfl
  | cons feature rest ih => rw [encodeFeatures, ih, List.map_cons]

namespace Feature

/-- A feature is read back at the depth of its value, and at every greater one. -/
theorem decodeWithin?_encode (depth : Nat) :
    ∀ feature : Feature, feature.encode.depth ≤ depth →
      decodeWithin? depth feature.encode =
        if AllFinite feature.plainNumbers then some feature else none := by
  induction depth with
  | zero => exact fun feature h => absurd feature.encode.depth_pos (Nat.not_lt.mpr h)
  | succ depth ih =>
      intro feature h
      obtain ⟨declarations, decisions, features⟩ := feature
      simp only [encode, encodeDecisions_eq, encodeFeatures_eq, Json.depth, Json.depthFields] at h
      have hdecisions : Json.asList? (Decision.decodeWithin? depth)
          (.arr (encodeDecisions decisions)) =
            if AllFinite (decisionPlainNumbers decisions) then some decisions else none := by
        refine Decision.asList?_encodeDecisions fun d hd => ?_
        have hinside := Json.depth_le_depthItems Decision.encode hd
        exact d.decodeWithin?_encode depth (by omega)
      have hfeatures : Json.asList? (decodeWithin? depth) (.arr (encodeFeatures features)) =
          if AllFinite (featurePlainNumbers features) then some features else none := by
        rw [encodeFeatures_eq, featurePlainNumbers_eq]
        refine Json.asList?_map_plain fun inner hinner => ?_
        have hinside := Json.depth_le_depthItems encode hinner
        exact ih inner (by omega)
      simp [decodeWithin?, encode, plainNumbers, Json.part?, Json.lookup?,
        Variable.asList?_map_encode, hdecisions, hfeatures, ite_and]

theorem decode?_encode (feature : Feature) :
    decode? feature.encode = if AllFinite feature.plainNumbers then some feature else none :=
  decodeWithin?_encode _ feature (Nat.le_refl _)

/-- **Which features survive.**  Writing a feature as a JSON value and reading it again gives
the feature, on the condition that its precisions and the constants of its comparisons
are finite, at every depth.  If one of them is not, the value cannot be read at all.
Only values are compared here; how deeply JSON text may be nested is up to its reader. -/
theorem survives_iff (feature : Feature) :
    (decode? feature.encode = some feature ↔ AllFinite feature.plainNumbers) ∧
      (decode? feature.encode = none ↔ ¬ AllFinite feature.plainNumbers) := by
  rw [decode?_encode]
  exact read_iff feature

/-- The feature `[ var x: num if (x < Inf) ]`, which compares with infinity: a constant like any
other in a source text. -/
theorem infinite_constant_lost :
    ∃ feature, parse "[ var x: num if (x < Inf) ]".toList = .ok feature ∧
      decode? feature.encode = none := by
  have hlost : (parse "[ var x: num if (x < Inf) ]".toList).toOption.any
      (fun feature => (decode? feature.encode).isNone) = true := by
    decide +kernel
  obtain ⟨feature, hparse, hnone⟩ := exists_ok_of_any hlost
  exact ⟨feature, hparse, Option.isNone_iff_eq_none.mp hnone⟩

end Feature
end DecisionTuples
