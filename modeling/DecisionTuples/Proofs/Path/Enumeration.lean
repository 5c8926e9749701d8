import DecisionTuples.Path.OfFeature
import Mathlib.Data.List.Chain

/-!
# The paths of a feature, enumerated

The paths of a feature are computed by one pass that also looks for constructs
without paths.  Here the two concerns are taken apart.

* `forestNodes` lists every decision that is reached through bodies, a decision
  before the decisions in its body.  The first of them with an alternative is
  the one because of which the feature is refused.
* `forestTrails` lists, leaves from left to right, the decisions met on the way
  from a root to the leaf.  A path is the requirements of a trail.

`forestPaths_eq` says that the pass does nothing but combine the two.  The
trails themselves are pinned down by where they end (`forestTrails_getLast?`)
and by how they go on (`forestTrails_descend`).
-/

namespace DecisionTuples

/-! ## Decisions in reading order -/

mutual

/-- The decision and all decisions reached from it through bodies, each before
those in its body. -/
def Decision.nodes : Decision → List Decision
  | ⟨conditions, body, elseIfs, otherwise⟩ =>
    ⟨conditions, body, elseIfs, otherwise⟩ :: blockNodes body

/-- The decisions reached through a body, if there is one. -/
def blockNodes : Option (List Decision) → List Decision
  | none => []
  | some decisions => forestNodes decisions

/-- The decisions reached from several decisions, one after the other. -/
def forestNodes : List Decision → List Decision
  | [] => []
  | decision :: rest => decision.nodes ++ forestNodes rest

end

mutual

/-- For each leaf below a decision, the decisions from it down to the leaf. -/
def Decision.trails : Decision → List (List Decision)
  | ⟨conditions, body, elseIfs, otherwise⟩ =>
    (blockTrails body).map (⟨conditions, body, elseIfs, otherwise⟩ :: ·)

/-- The ways to go on inside a body.  At a leaf the only way is to stop. -/
def blockTrails : Option (List Decision) → List (List Decision)
  | none => [[]]
  | some [] => [[]]
  | some (decision :: rest) => decision.trails ++ forestTrails rest

/-- The trails of several decisions, one decision after the other. -/
def forestTrails : List Decision → List (List Decision)
  | [] => []
  | decision :: rest => decision.trails ++ forestTrails rest

end

namespace Decision

/-- The decisions in the body; without a body there are none. -/
def children (decision : Decision) : List Decision := decision.body.getD []

/-- The alternative that is named when the decision is refused: one with
conditions comes before the closing one. -/
def refusal (decision : Decision) : Construct :=
  if decision.elseIfs.isEmpty then .otherwise else .elseIf

/-- The requirements that the decision adds to a path. -/
def requirements (decision : Decision) : Path := decision.conditions.map Condition.requirement

end Decision

/-- The requirements met along a trail, from its root to its leaf. -/
def Path.ofTrail (trail : List Decision) : Path := trail.flatMap Decision.requirements

/-- What enumerating gives for decisions with the given nodes and trails: the
refusal of the first node that has an alternative, or else the path of every
trail. -/
def enumerated (nodes : List Decision) (trails : List (List Decision)) :
    Except CompileError (List Path) :=
  match nodes.find? Decision.hasAlternatives with
  | some refused => .error (.unsupported refused.refusal)
  | none => .ok (trails.map Path.ofTrail)

/-! ## The pass combines nodes and trails -/

/-- The code's own test for an alternative finds one exactly at the nodes that have
alternatives, and then names the refusal. -/
theorem firstAlternative?_eq (conditions : List Condition) (body : Option (List Decision))
    (elseIfs : List ElseIf) (otherwise : Option (List Decision)) :
    firstAlternative? elseIfs otherwise =
      if (Decision.mk conditions body elseIfs otherwise).hasAlternatives then
        some (Decision.mk conditions body elseIfs otherwise).refusal
      else none := by
  cases elseIfs with
  | nil =>
      cases otherwise with
      | none => rfl
      | some closing => rfl
  | cons alternative rest => rfl

/-- Decisions that stand one after the other are enumerated one after the other: a
refusal among the first wins. -/
theorem enumerated_append (nodes nodes' : List Decision) (trails trails' : List (List Decision)) :
    enumerated (nodes ++ nodes') (trails ++ trails') = (do
      let first ← enumerated nodes trails
      let others ← enumerated nodes' trails'
      return first ++ others) := by
  unfold enumerated
  rw [List.find?_append]
  cases nodes.find? Decision.hasAlternatives with
  | some refused => rfl -- the second part is not looked at
  | none =>
      rw [Option.none_or]
      cases nodes'.find? Decision.hasAlternatives with
      | some refused => rfl
      | none =>
          rw [List.map_append]
          rfl

/-- A decision without alternatives puts its requirements before every path of its
body. -/
theorem enumerated_cons (decision : Decision) (nodes : List Decision)
    (trails : List (List Decision)) :
    enumerated (decision :: nodes) (trails.map (decision :: ·)) =
      if decision.hasAlternatives then .error (.unsupported decision.refusal)
      else do
        let below ← enumerated nodes trails
        return below.map fun path => decision.requirements ++ path := by
  unfold enumerated
  rw [List.find?_cons]
  cases decision.hasAlternatives with
  | true => rfl
  | false =>
      dsimp only
      cases nodes.find? Decision.hasAlternatives with
      | some refused => rfl
      | none =>
          change Except.ok _ = Except.ok _
          rw [List.map_map, List.map_map]
          congr 1

mutual

theorem Decision.paths_eq : ∀ decision : Decision,
    decision.paths = enumerated decision.nodes decision.trails
  | ⟨conditions, body, elseIfs, otherwise⟩ => by
      rw [Decision.paths_mk, Decision.nodes, Decision.trails, enumerated_cons,
        firstAlternative?_eq conditions body, blockPaths_eq body]
      split <;> simp_all [Decision.requirements]

theorem blockPaths_eq : ∀ body : Option (List Decision),
    blockPaths body = enumerated (blockNodes body) (blockTrails body)
  | none => rfl
  | some [] => rfl
  | some (decision :: rest) => by
      rw [blockPaths, blockNodes, forestNodes, blockTrails, enumerated_append,
        Decision.paths_eq decision, forestPaths_eq rest]

/-- The pass over several decisions refuses the first node with an alternative, or
else gives the path of every trail. -/
theorem forestPaths_eq : ∀ decisions : List Decision,
    forestPaths decisions = enumerated (forestNodes decisions) (forestTrails decisions)
  | [] => rfl
  | decision :: rest => by
      rw [forestPaths, forestNodes, forestTrails, enumerated_append,
        Decision.paths_eq decision, forestPaths_eq rest]

end

/-! ## What the trails are -/

/-- The last decision of a trail that goes on below a decision is the last one of the
rest. -/
theorem map_getLast?_cons (decision : Decision) {trails : List (List Decision)}
    {leaves : List Decision} (h : trails.map List.getLast? = leaves.map some) :
    (trails.map (decision :: ·)).map List.getLast? = leaves.map some := by
  -- The new decision is the last one only of a trail that was empty.
  have hlast : (List.getLast? ∘ fun trail => decision :: trail) =
      (fun last : Option Decision => some (last.getD decision)) ∘ List.getLast? := by
    funext trail
    exact List.getLast?_cons
  rw [List.map_map, hlast, ← List.map_map, h, List.map_map]
  rfl

mutual

theorem Decision.trails_getLast? : ∀ decision : Decision,
    decision.trails.map List.getLast? = (decision.nodes.filter Decision.isLeaf).map some
  | ⟨_, none, _, _⟩ => rfl
  | ⟨_, some [], _, _⟩ => rfl
  | ⟨conditions, some (decision :: rest), elseIfs, otherwise⟩ => by
      -- A decision with something in its body is not a leaf itself.
      rw [Decision.trails, Decision.nodes, List.filter_cons_of_neg (by simp [Decision.isLeaf])]
      exact map_getLast?_cons _ (forestTrails_getLast? (decision :: rest))

/-- There is one trail for each leaf, and they stand in the order in which the leaves
are read. -/
theorem forestTrails_getLast? : ∀ decisions : List Decision,
    (forestTrails decisions).map List.getLast? =
      ((forestNodes decisions).filter Decision.isLeaf).map some
  | [] => rfl
  | decision :: rest => by
      rw [forestTrails, forestNodes, List.map_append, List.filter_append, List.map_append,
        Decision.trails_getLast? decision, forestTrails_getLast? rest]

end

mutual

theorem Decision.mem_nodes_of_trail : ∀ decision : Decision,
    ∀ trail ∈ decision.trails, ∀ node ∈ trail, node ∈ decision.nodes
  | ⟨conditions, body, elseIfs, otherwise⟩, trail, htrail, node, hnode => by
      rw [Decision.trails, List.mem_map] at htrail
      obtain ⟨below, hbelow, rfl⟩ := htrail
      rw [Decision.nodes]
      rcases List.mem_cons.mp hnode with rfl | hnode
      · exact List.mem_cons_self
      · exact List.mem_cons_of_mem _ (mem_blockNodes_of_trail body below hbelow node hnode)

theorem mem_blockNodes_of_trail : ∀ body : Option (List Decision),
    ∀ trail ∈ blockTrails body, ∀ node ∈ trail, node ∈ blockNodes body
  | none, trail, htrail, node, hnode => by
      obtain rfl := List.mem_singleton.mp htrail
      cases hnode
  | some [], trail, htrail, node, hnode => by
      obtain rfl := List.mem_singleton.mp htrail
      cases hnode
  | some (decision :: rest), trail, htrail, node, hnode => by
      rw [blockTrails, List.mem_append] at htrail
      rw [blockNodes, forestNodes, List.mem_append]
      rcases htrail with hfirst | hrest
      · exact .inl (Decision.mem_nodes_of_trail decision trail hfirst node hnode)
      · exact .inr (mem_forestNodes_of_trail rest trail hrest node hnode)

/-- A trail meets only decisions that are reached through bodies. -/
theorem mem_forestNodes_of_trail : ∀ decisions : List Decision,
    ∀ trail ∈ forestTrails decisions, ∀ node ∈ trail, node ∈ forestNodes decisions
  | [], trail, htrail, _, _ => absurd htrail List.not_mem_nil
  | decision :: rest, trail, htrail, node, hnode => by
      rw [forestTrails, List.mem_append] at htrail
      rw [forestNodes, List.mem_append]
      rcases htrail with hfirst | hrest
      · exact .inl (Decision.mem_nodes_of_trail decision trail hfirst node hnode)
      · exact .inr (mem_forestNodes_of_trail rest trail hrest node hnode)

end

/-- A trail begins at one of the given decisions, and each further decision of it
stands in the body of the one before. -/
def Descends (roots : List Decision) (trail : List Decision) : Prop :=
  (∃ root ∈ roots, trail.head? = some root) ∧
    trail.IsChain fun parent child => child ∈ parent.children

/-- A trail into the body of a decision, continued at the front by the decision. -/
theorem Descends.cons {decision : Decision} {trail : List Decision}
    (h : Descends decision.children trail) : Descends [decision] (decision :: trail) := by
  obtain ⟨⟨root, hroot, hhead⟩, hchain⟩ := h
  refine ⟨⟨decision, List.mem_singleton_self _, rfl⟩, hchain.cons ?_⟩
  intro child hchild
  rw [hhead] at hchild
  cases hchild
  exact hroot

theorem Descends.mono {roots roots' : List Decision} {trail : List Decision}
    (h : Descends roots trail) (hsub : roots ⊆ roots') : Descends roots' trail := by
  obtain ⟨⟨root, hroot, hhead⟩, hchain⟩ := h
  exact ⟨⟨root, hsub hroot, hhead⟩, hchain⟩

mutual

theorem Decision.trails_descend : ∀ decision : Decision,
    ∀ trail ∈ decision.trails, Descends [decision] trail
  | ⟨conditions, none, elseIfs, otherwise⟩, trail, htrail => by
      obtain rfl := List.mem_singleton.mp htrail
      exact ⟨⟨_, List.mem_singleton_self _, rfl⟩, .singleton _⟩
  | ⟨conditions, some [], elseIfs, otherwise⟩, trail, htrail => by
      obtain rfl := List.mem_singleton.mp htrail
      exact ⟨⟨_, List.mem_singleton_self _, rfl⟩, .singleton _⟩
  | ⟨conditions, some (decision :: rest), elseIfs, otherwise⟩, trail, htrail => by
      rw [Decision.trails, List.mem_map] at htrail
      obtain ⟨below, hbelow, rfl⟩ := htrail
      exact Descends.cons (forestTrails_descend (decision :: rest) below hbelow)

theorem forestTrails_descend : ∀ decisions : List Decision,
    ∀ trail ∈ forestTrails decisions, Descends decisions trail
  | [], trail, htrail => absurd htrail List.not_mem_nil
  | decision :: rest, trail, htrail => by
      rw [forestTrails, List.mem_append] at htrail
      rcases htrail with hfirst | hrest
      · exact (Decision.trails_descend decision trail hfirst).mono (by simp)
      · exact (forestTrails_descend rest trail hrest).mono (List.subset_cons_self _ _)

end

/-! ## Features -/

/-- What taking a feature apart gives, by its nested features, nodes and trails. -/
theorem Feature.pathTable_eq (feature : Feature) :
    feature.pathTable =
      if feature.features ≠ [] then .error (.unsupported .nestedFeature)
      else match (forestNodes feature.decisions).find? Decision.hasAlternatives with
        | some refused => .error (.unsupported refused.refusal)
        | none => .ok ⟨feature.declarations,
            (forestTrails feature.decisions).map Path.ofTrail⟩ := by
  obtain ⟨declarations, decisions, features⟩ := feature
  cases features with
  | cons nested rest => rfl
  | nil =>
      rw [if_neg (by simp), Feature.pathTable, forestPaths_eq, enumerated]
      dsimp only
      cases (forestNodes decisions).find? Decision.hasAlternatives with
      | some refused => rfl
      | none => rfl

/-- The relation that a comparison comes down to is one that has a region, and it is
the region of the requirement. -/
theorem Condition.requirement_comparison (name : String) (side : Side) (constant : Number)
    (written : Comparison) :
    ∃ region, (Condition.comparison name side constant written).requirement =
        .membership name (.compares (facingRight side written)) region ∧
      Region.ofRelation (.compares (facingRight side written)) constant = .ok region :=
  ⟨_, rfl, rfl⟩

/-- **Taking a feature apart into paths.**  Nested features are refused before anything
else.  Otherwise the first decision in reading order that has an alternative is the
one refused; if there is none, the declarations are kept as they are and the paths
are the requirements along the trails, one trail for each leaf from left to right,
each beginning at a decision of the feature and going on through bodies.  No
condition is ever without a region. -/
theorem Feature.pathTable_enumerates (feature : Feature) :
    feature.pathTable =
        (if feature.features ≠ [] then .error (.unsupported .nestedFeature)
        else match (forestNodes feature.decisions).find? Decision.hasAlternatives with
          | some refused => .error (.unsupported refused.refusal)
          | none => .ok ⟨feature.declarations,
              (forestTrails feature.decisions).map Path.ofTrail⟩) ∧
      (forestTrails feature.decisions).map List.getLast? =
        ((forestNodes feature.decisions).filter Decision.isLeaf).map some ∧
      (∀ trail ∈ forestTrails feature.decisions, Descends feature.decisions trail) ∧
      ∀ name side constant written, ∃ region,
        (Condition.comparison name side constant written).requirement =
            .membership name (.compares (Condition.facingRight side written)) region ∧
          Region.ofRelation (.compares (Condition.facingRight side written)) constant =
            .ok region :=
  ⟨feature.pathTable_eq, forestTrails_getLast? _, forestTrails_descend _,
    Condition.requirement_comparison⟩

end DecisionTuples
