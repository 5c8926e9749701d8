import DecisionTuples.Proofs.Compiler
import Mathlib.Data.List.Perm.Basic

/-!
# Decisions written in another order

Decisions are *rearranged* by two moves, made anywhere in them and any number of times:
the conditions of a decision are put in another order, and a decision that is all there
is in the body of another one is exchanged with it.  What is in the body of the inner
decision stays where it is.

Rearranging keeps the paths but for the order of the requirements on each
(`Rearranged.paths`), and it keeps the names that are referred to
(`Rearranged.references`), so the analysis has the same answer.
-/

namespace DecisionTuples

/-- The second list of decisions is the first one with conditions put in another order and
nested decisions exchanged. -/
inductive Rearranged : List Decision → List Decision → Prop
  | refl (decisions : List Decision) : Rearranged decisions decisions
  | trans {decisions decisions' decisions'' : List Decision}
      (first : Rearranged decisions decisions') (second : Rearranged decisions' decisions'') :
      Rearranged decisions decisions''
  /-- The conditions of a decision in another order. -/
  | conditions {conditions conditions' : List Condition} (perm : conditions.Perm conditions')
      (body : Option (List Decision)) (elseIfs : List ElseIf)
      (otherwise : Option (List Decision)) :
      Rearranged [⟨conditions, body, elseIfs, otherwise⟩] [⟨conditions', body, elseIfs, otherwise⟩]
  /-- Two nested decisions exchanged. -/
  | nested (outer inner : List Condition) (body : Option (List Decision)) :
      Rearranged [⟨outer, some [⟨inner, body, [], none⟩], [], none⟩]
        [⟨inner, some [⟨outer, body, [], none⟩], [], none⟩]
  /-- A body rearranged. -/
  | body (conditions : List Condition) {below below' : List Decision} (elseIfs : List ElseIf)
      (otherwise : Option (List Decision)) (inside : Rearranged below below') :
      Rearranged [⟨conditions, some below, elseIfs, otherwise⟩]
        [⟨conditions, some below', elseIfs, otherwise⟩]
  /-- Two parts rearranged one after the other. -/
  | append {front front' back back' : List Decision} (first : Rearranged front front')
      (second : Rearranged back back') : Rearranged (front ++ back) (front' ++ back')

theorem forestPaths_append (front back : List Decision) :
    forestPaths (front ++ back) = (do
      let first ← forestPaths front
      let others ← forestPaths back
      return first ++ others) := by
  induction front with
  | nil =>
      change _ = (forestPaths back >>= fun others => pure ([] ++ others))
      simp
  | cons decision rest ih =>
      rw [List.cons_append, forestPaths, forestPaths, ih]
      cases decision.paths with
      | error error => rfl
      | ok first =>
          cases forestPaths rest with
          | error error => rfl
          | ok others =>
              cases forestPaths back with
              | error error => rfl
              | ok last => exact congrArg Except.ok (List.append_assoc first others last).symm

theorem forestPaths_singleton (decision : Decision) :
    forestPaths [decision] = decision.paths := by
  change (do
    let first ← decision.paths
    let others ← Except.ok []
    return first ++ others) = _
  cases decision.paths with
  | error error => rfl
  | ok paths => exact congrArg Except.ok (List.append_nil paths)

/-- A body with decisions in it has their paths. -/
theorem blockPaths_eq_forestPaths {decisions : List Decision} (h : decisions ≠ []) :
    blockPaths (some decisions) = forestPaths decisions := by
  cases decisions with
  | nil => exact absurd rfl h
  | cons decision rest => rfl

theorem decisionReferences_append (front back : List Decision) :
    decisionReferences (front ++ back) = decisionReferences front ++ decisionReferences back := by
  induction front with
  | nil => rfl
  | cons decision rest ih => simp [decisionReferences, ih]

theorem forall₂_perm_trans {paths paths' paths'' : List Path}
    (h : List.Forall₂ List.Perm paths paths') (h' : List.Forall₂ List.Perm paths' paths'') :
    List.Forall₂ List.Perm paths paths'' := by
  induction h generalizing paths'' with
  | nil => exact h'
  | cons hperm _ ih =>
      cases h' with
      | cons hperm' hrest => exact .cons (hperm.trans hperm') (ih hrest)

namespace Rearranged

variable {decisions decisions' : List Decision}

theorem eq_nil_iff (h : Rearranged decisions decisions') : decisions = [] ↔ decisions' = [] := by
  induction h with
  | refl decisions => exact Iff.rfl
  | trans _ _ ih ih' => exact ih.trans ih'
  | conditions _ _ _ _ => simp
  | nested _ _ _ => simp
  | body _ _ _ _ _ => simp
  | append _ _ ih ih' => simp [ih, ih']

/-- What the paths of a body come to when requirements are put in front of each. -/
theorem agree_map {x y : Except CompileError (List Path)} {front front' : Path}
    (hfront : front.Perm front') (h : Agree (List.Forall₂ List.Perm) x y) :
    Agree (List.Forall₂ List.Perm) (do return (← x).map fun path => front ++ path)
      (do return (← y).map fun path => front' ++ path) := by
  refine h.bind fun paths paths' hpaths => .ok ?_
  rw [List.forall₂_map_left_iff, List.forall₂_map_right_iff]
  exact hpaths.imp fun _ _ hperm => hfront.append hperm

/-- **Rearranging keeps the paths**, but for the order of the requirements on each. -/
theorem paths (h : Rearranged decisions decisions') :
    Agree (List.Forall₂ List.Perm) (forestPaths decisions) (forestPaths decisions') := by
  have hsame (outcome : Except CompileError (List Path)) :
      Agree (List.Forall₂ List.Perm) outcome outcome := by
    cases outcome with
    | error error => exact .error error
    | ok paths => exact .ok (List.forall₂_same.mpr fun _ _ => .refl _)
  induction h with
  | refl decisions => exact hsame _
  | trans _ _ ih ih' =>
      refine (ih.trans ih').imp ?_
      rintro paths paths'' ⟨paths', hpaths, hpaths'⟩
      exact forall₂_perm_trans hpaths hpaths'
  | conditions perm body elseIfs otherwise =>
      rw [forestPaths_singleton, forestPaths_singleton, Decision.paths_mk, Decision.paths_mk]
      cases firstAlternative? elseIfs otherwise with
      | some construct => exact .error _
      | none => exact agree_map (perm.map _) (hsame _)
  | nested outer inner body =>
      rw [forestPaths_singleton, forestPaths_singleton, Decision.paths_mk, Decision.paths_mk,
        blockPaths_eq_forestPaths (List.cons_ne_nil _ _),
        blockPaths_eq_forestPaths (List.cons_ne_nil _ _), forestPaths_singleton,
        forestPaths_singleton, Decision.paths_mk, Decision.paths_mk]
      cases blockPaths body with
      | error error => exact .error error
      | ok below =>
          -- Both ways round, a path of the inner body has the same requirements before it.
          refine .ok ?_
          simp only [List.forall₂_map_left_iff, List.forall₂_map_right_iff]
          refine List.forall₂_same.mpr fun path _ => ?_
          simp only [← List.append_assoc]
          exact List.perm_append_comm.append_right path
  | @body conditions below below' elseIfs otherwise inside ih =>
      rw [forestPaths_singleton, forestPaths_singleton, Decision.paths_mk, Decision.paths_mk]
      cases firstAlternative? elseIfs otherwise with
      | some construct => exact .error _
      | none =>
          refine agree_map (.refl _) ?_
          by_cases hnil : below = []
          · rw [hnil, inside.eq_nil_iff.mp hnil]
            exact hsame _
          · rw [blockPaths_eq_forestPaths hnil,
              blockPaths_eq_forestPaths (mt inside.eq_nil_iff.mpr hnil)]
            exact ih
  | append _ _ ih ih' =>
      rw [forestPaths_append, forestPaths_append]
      refine ih.bind fun first first' hfirst => ?_
      refine ih'.bind fun others others' hothers => .ok ?_
      exact List.rel_append hfirst hothers

/-- Rearranging keeps the names that are referred to, but for their order. -/
theorem references (h : Rearranged decisions decisions') :
    (decisionReferences decisions).Perm (decisionReferences decisions') := by
  induction h with
  | refl decisions => exact .refl _
  | trans _ _ ih ih' => exact ih.trans ih'
  | conditions perm body elseIfs otherwise =>
      simp only [decisionReferences, Decision.references, List.append_assoc]
      exact (perm.map _).append_right _
  | nested outer inner body =>
      simp only [decisionReferences, Decision.references, blockReferences, elseIfReferences,
        List.append_nil, ← List.append_assoc]
      exact List.perm_append_comm.append_right _
  | body conditions elseIfs otherwise inside ih =>
      simp only [decisionReferences, Decision.references, blockReferences, List.append_assoc]
      exact (ih.append_right _).append_left _
  | append _ _ ih ih' =>
      rw [decisionReferences_append, decisionReferences_append]
      exact ih.append ih'

end Rearranged

namespace Feature

/-- The second feature says the same as the first one, its decisions rearranged. -/
structure Rearranged (feature feature' : Feature) : Prop where
  declarations : feature'.declarations = feature.declarations
  decisions : DecisionTuples.Rearranged feature.decisions feature'.decisions
  features : feature'.features = feature.features

variable {feature feature' : Feature}

/-- Both features are refused for the same construct, or their paths are the same but for
the order of the requirements on each. -/
theorem Rearranged.pathTable (h : feature.Rearranged feature') :
    Agree (fun table table' => table'.declarations = table.declarations ∧
      List.Forall₂ List.Perm table.paths table'.paths) feature.pathTable feature'.pathTable := by
  unfold Feature.pathTable
  rw [h.features, h.declarations]
  cases feature.features with
  | cons nested rest => exact .error _
  | nil => exact h.decisions.paths.bind fun paths paths' hpaths => .ok ⟨rfl, hpaths⟩

theorem Rearranged.passes (h : feature.Rearranged feature') {compiler : Compiler}
    (hpasses : compiler.Passes feature) : compiler.Passes feature' := by
  intro hanalysis
  obtain ⟨hdeclare, hreferences⟩ := Scope.analyze_eq_ok_iff.mp (hpasses hanalysis)
  rw [← h.declarations] at hdeclare hreferences
  refine Scope.analyze_eq_ok_iff.mpr ⟨hdeclare, fun name hname => hreferences name ?_⟩
  exact h.decisions.references.mem_iff.mpr hname

end Feature
end DecisionTuples
