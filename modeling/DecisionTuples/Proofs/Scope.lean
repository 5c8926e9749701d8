import DecisionTuples.Proofs.Compiler
import Mathlib.Data.List.Nodup

/-!
# What the scope analysis finds

The analysis of a feature is judged here by where its conditions stand.  A condition
stands at an *address*, a list of numbers that leads from the feature down to it:

* the number of a decision among its neighbours;
* then the part of the decision: `0` for its own conditions, `1` for its body, `2` for
  its alternatives with conditions, `3` for the closing alternative;
* then the number within that part, and so on.

Addresses in lexicographic order (`NotAfter`) are in reading order.
`Scope.analyze_first_fault` says that the analysis succeeds exactly if the declared names
are distinct and the condition at every address is about one of them, and that otherwise
it reports the first fault: the first declaration that repeats a name, or else the
undeclared name at the least address.  Nothing depends on what was analysed before.

The addresses are the specification only.  The analysis itself lists the names it meets
and looks for the first that is missing; `firstMissing_decisions` ties the two together,
one part of the tree after the other.
-/

namespace DecisionTuples

/-! ## Where conditions stand -/

/-- The first address is the second one or stands before it. -/
def NotAfter : List Nat → List Nat → Prop
  | [], _ => True
  | _ :: _, [] => False
  | i :: address, j :: address' => i < j ∨ (i = j ∧ NotAfter address address')

theorem NotAfter.refl : ∀ address : List Nat, NotAfter address address
  | [] => trivial
  | _ :: address => .inr ⟨rfl, NotAfter.refl address⟩

theorem NotAfter.antisymm : ∀ {address address' : List Nat}, NotAfter address address' →
    NotAfter address' address → address = address'
  | [], [], _, _ => rfl
  | i :: address, j :: address', h, h' => by
      rcases h with hlt | ⟨rfl, h⟩
      · rcases h' with hgt | ⟨heq, -⟩ <;> omega
      · rcases h' with hgt | ⟨-, h'⟩
        · exact absurd hgt (Nat.lt_irrefl i)
        · rw [h.antisymm h']

mutual

/-- The condition stands at the address in the decision. -/
inductive Decision.Stands : Decision → List Nat → Condition → Prop
  | own {decision : Decision} {i : Nat} {condition : Condition}
      (h : decision.conditions[i]? = some condition) : Decision.Stands decision [0, i] condition
  | body {decision inner : Decision} {block : List Decision} {i : Nat} {address : List Nat}
      {condition : Condition} (hbody : decision.body = some block)
      (hinner : block[i]? = some inner) (h : Decision.Stands inner address condition) :
      Decision.Stands decision (1 :: i :: address) condition
  | elseIf {decision : Decision} {alternative : ElseIf} {i : Nat} {address : List Nat}
      {condition : Condition} (halternative : decision.elseIfs[i]? = some alternative)
      (h : ElseIf.Stands alternative address condition) :
      Decision.Stands decision (2 :: i :: address) condition
  | otherwise {decision inner : Decision} {block : List Decision} {i : Nat}
      {address : List Nat} {condition : Condition} (hclosing : decision.otherwise = some block)
      (hinner : block[i]? = some inner) (h : Decision.Stands inner address condition) :
      Decision.Stands decision (3 :: i :: address) condition

/-- The condition stands at the address in the alternative. -/
inductive ElseIf.Stands : ElseIf → List Nat → Condition → Prop
  | own {alternative : ElseIf} {i : Nat} {condition : Condition}
      (h : alternative.conditions[i]? = some condition) :
      ElseIf.Stands alternative [0, i] condition
  | body {alternative : ElseIf} {inner : Decision} {block : List Decision} {i : Nat}
      {address : List Nat} {condition : Condition} (hbody : alternative.body = some block)
      (hinner : block[i]? = some inner) (h : Decision.Stands inner address condition) :
      ElseIf.Stands alternative (1 :: i :: address) condition

end

/-- The condition stands at the address in one of several things, which are numbered from
zero. -/
inductive Among {α : Type} (stands : α → List Nat → Condition → Prop) (xs : List α) :
    List Nat → Condition → Prop
  | intro {x : α} {i : Nat} {address : List Nat} {condition : Condition}
      (hx : xs[i]? = some x) (h : stands x address condition) :
      Among stands xs (i :: address) condition

mutual

theorem Decision.Stands.unique : ∀ {decision : Decision} {address : List Nat}
    {condition condition' : Condition}, decision.Stands address condition →
      decision.Stands address condition' → condition = condition'
  | _, _, _, _, .own h, .own h' => Option.some_inj.mp (h.symm.trans h')
  | _, _, _, _, .body hbody hinner h, .body hbody' hinner' h' => by
      obtain rfl := Option.some_inj.mp (hbody.symm.trans hbody')
      obtain rfl := Option.some_inj.mp (hinner.symm.trans hinner')
      exact h.unique h'
  | _, _, _, _, .elseIf halternative h, .elseIf halternative' h' => by
      obtain rfl := Option.some_inj.mp (halternative.symm.trans halternative')
      exact h.unique h'
  | _, _, _, _, .otherwise hclosing hinner h, .otherwise hclosing' hinner' h' => by
      obtain rfl := Option.some_inj.mp (hclosing.symm.trans hclosing')
      obtain rfl := Option.some_inj.mp (hinner.symm.trans hinner')
      exact h.unique h'

theorem ElseIf.Stands.unique : ∀ {alternative : ElseIf} {address : List Nat}
    {condition condition' : Condition}, alternative.Stands address condition →
      alternative.Stands address condition' → condition = condition'
  | _, _, _, _, .own h, .own h' => Option.some_inj.mp (h.symm.trans h')
  | _, _, _, _, .body hbody hinner h, .body hbody' hinner' h' => by
      obtain rfl := Option.some_inj.mp (hbody.symm.trans hbody')
      obtain rfl := Option.some_inj.mp (hinner.symm.trans hinner')
      exact h.unique h'

end

/-- The condition stands at the address in the feature.  Nested features have conditions
of their own. -/
def Feature.Stands (feature : Feature) : List Nat → Condition → Prop :=
  Among Decision.Stands feature.decisions

theorem Feature.Stands.unique {feature : Feature} {address : List Nat}
    {condition condition' : Condition} (h : feature.Stands address condition)
    (h' : feature.Stands address condition') : condition = condition' := by
  obtain ⟨hx, h⟩ := h
  obtain ⟨hx', h'⟩ := h'
  obtain rfl := Option.some_inj.mp (hx.symm.trans hx')
  exact Decision.Stands.unique h h'

/-- The names that the feature declares. -/
def Feature.names (feature : Feature) : List String := feature.declarations.map Variable.name

/-- The first fault of a feature: a repeated declaration, or else the undeclared name that
is read first. -/
inductive Feature.FirstFault (feature : Feature) : CompileError → Prop
  | repeated {earlier later : List Variable} {declared : Variable}
      (h : feature.declarations = earlier ++ declared :: later)
      (hdistinct : (earlier.map Variable.name).Nodup)
      (hrepeats : declared.name ∈ earlier.map Variable.name) :
      feature.FirstFault (.duplicateVariable declared.name)
  | undeclared {address : List Nat} {condition : Condition} (hdistinct : feature.names.Nodup)
      (h : feature.Stands address condition) (hmissing : condition.name ∉ feature.names)
      (hfirst : ∀ address' condition', feature.Stands address' condition' →
        condition'.name ∉ feature.names → NotAfter address address') :
      feature.FirstFault (.undefinedVariable condition.name)

/-! ## The first name that is missing -/

/-- The name at the least address at which a name is missing, if there is such an
address. -/
inductive FirstMissing (missing : String → Bool) (stands : List Nat → Condition → Prop) :
    Option String → Prop
  | none (h : ∀ address condition, stands address condition → missing condition.name = false) :
      FirstMissing missing stands none
  | some {address : List Nat} {condition : Condition} (h : stands address condition)
      (hmissing : missing condition.name = true)
      (hfirst : ∀ address' condition', stands address' condition' →
        missing condition'.name = true → NotAfter address address') :
      FirstMissing missing stands (some condition.name)

/-- The first conditions at number zero, the others one number further. -/
def Ahead (first others : List Nat → Condition → Prop) : List Nat → Condition → Prop
  | 0 :: address, condition => first address condition
  | (i + 1) :: address, condition => others (i :: address) condition
  | [], _ => False

namespace FirstMissing

variable {missing : String → Bool} {first others stands : List Nat → Condition → Prop}
  {found found' : Option String}

theorem of_iff (h : FirstMissing missing stands found)
    (hiff : ∀ address condition, first address condition ↔ stands address condition) :
    FirstMissing missing first found := by
  obtain rfl : first = stands := by
    funext address condition
    exact propext (hiff address condition)
  exact h

/-- A name missing in front comes before all that are missing further on. -/
theorem ahead (hfirst : FirstMissing missing first found)
    (hothers : FirstMissing missing others found')
    (hnil : ∀ condition, ¬ others [] condition) :
    FirstMissing missing (Ahead first others) (found.or found') := by
  cases hfirst with
  | @some address condition h hmissing hleast =>
      refine @FirstMissing.some _ _ (0 :: address) _ h hmissing ?_
      intro address' condition' h' hmissing'
      match address' with
      | [] => exact h'.elim
      | 0 :: address' =>
          exact .inr ⟨rfl, hleast address' condition' h' hmissing'⟩
      | (i + 1) :: address' => exact .inl (Nat.succ_pos i)
  | none hnone =>
      cases hothers with
      | none hnone' =>
          refine .none ?_
          intro address condition h
          match address with
          | [] => exact h.elim
          | 0 :: address => exact hnone address condition h
          | (i + 1) :: address => exact hnone' (i :: address) condition h
      | @some address condition h hmissing hleast =>
          match address with
          | [] => exact absurd h (hnil condition)
          | i :: address =>
              refine @FirstMissing.some _ _ ((i + 1) :: address) _ h hmissing ?_
              intro address' condition' h' hmissing'
              match address' with
              | [] => exact h'.elim
              | 0 :: address' =>
                  have hdeclared := hnone address' condition' h'
                  rw [hmissing'] at hdeclared
                  cases hdeclared
              | (j + 1) :: address' =>
                  exact (hleast (j :: address') condition' h' hmissing').imp Nat.succ_lt_succ
                    fun ⟨heq, hrest⟩ => ⟨by rw [heq], hrest⟩

/-- The first of several things, and the others. -/
theorem among_cons {α : Type} {stands : α → List Nat → Condition → Prop} {x : α} {xs : List α}
    (hx : FirstMissing missing (stands x) found)
    (hxs : FirstMissing missing (Among stands xs) found') :
    FirstMissing missing (Among stands (x :: xs)) (found.or found') := by
  refine (hx.ahead hxs nofun).of_iff fun address condition => ⟨?_, ?_⟩
  · rintro @⟨y, i, address, condition, hy, h⟩
    cases i with
    | zero =>
        obtain rfl : x = y := Option.some_inj.mp hy
        exact h
    | succ i => exact .intro hy h
  · intro h
    match address, h with
    | 0 :: _, h => exact .intro rfl h
    | (_ + 1) :: _, .intro hy h => exact .intro hy h

/-- There is one first missing name at most, where no address leads to two conditions. -/
theorem unique (h : FirstMissing missing stands found) (h' : FirstMissing missing stands found')
    (hstands : ∀ {address condition condition'}, stands address condition →
      stands address condition' → condition = condition') : found = found' := by
  cases h with
  | none hnone =>
      cases h' with
      | none => rfl
      | some h hmissing => rw [hnone _ _ h] at hmissing; cases hmissing
  | some h hmissing hfirst =>
      cases h' with
      | none hnone => rw [hnone _ _ h] at hmissing; cases hmissing
      | some h' hmissing' hfirst' =>
          obtain rfl := (hfirst _ _ h' hmissing').antisymm (hfirst' _ _ h hmissing)
          rw [hstands h h']

end FirstMissing

/-! ## The names of a tree, part by part -/

variable {missing : String → Bool}

/-- There is no condition. -/
def Nowhere (_ : List Nat) (_ : Condition) : Prop := False

theorem firstMissing_nowhere : FirstMissing missing Nowhere none := .none fun _ _ h => h.elim

theorem firstMissing_among_nil {α : Type} {stands : α → List Nat → Condition → Prop} :
    FirstMissing missing (Among stands []) none := .none fun _ _ h => by cases h with
  | intro hx _ => simp at hx

/-- The condition stands at the address in the block between braces, if there is one. -/
def StandsBetween (block : Option (List Decision)) (address : List Nat) (condition : Condition) :
    Prop :=
  ∃ decisions, block = some decisions ∧ Among Decision.Stands decisions address condition

/-- A condition has no parts. -/
def Condition.Stands (condition : Condition) (address : List Nat) (found : Condition) : Prop :=
  address = [] ∧ found = condition

theorem Condition.firstMissing (condition : Condition) :
    FirstMissing missing condition.Stands ([condition.name].find? missing) := by
  cases hmissing : missing condition.name with
  | true =>
      have hfound : [condition.name].find? missing = some condition.name := by simp [hmissing]
      rw [hfound]
      refine .some ⟨rfl, rfl⟩ hmissing ?_
      rintro address found ⟨rfl, -⟩ -
      exact NotAfter.refl []
  | false =>
      have hfound : [condition.name].find? missing = none := by simp [hmissing]
      rw [hfound]
      refine .none ?_
      rintro address found ⟨-, rfl⟩
      exact hmissing

theorem firstMissing_conditions : ∀ conditions : List Condition,
    FirstMissing missing (Among Condition.Stands conditions)
      ((conditions.map Condition.name).find? missing)
  | [] => firstMissing_among_nil
  | first :: rest => by
      have hnames : (List.map Condition.name (first :: rest)).find? missing =
          ([first.name].find? missing).or ((rest.map Condition.name).find? missing) := by
        rw [← List.find?_append]
        rfl
      rw [hnames]
      exact first.firstMissing.among_cons (firstMissing_conditions rest)

/-- An alternative has its conditions, and then its body. -/
theorem ElseIf.stands_iff (conditions : List Condition) (body : Option (List Decision))
    (address : List Nat) (condition : Condition) :
    ElseIf.Stands ⟨conditions, body⟩ address condition ↔
      Ahead (Among Condition.Stands conditions) (Ahead (StandsBetween body) Nowhere)
        address condition := by
  constructor
  · rintro (h | ⟨hbody, hinner, h⟩)
    · exact .intro h ⟨rfl, rfl⟩
    · exact ⟨_, hbody, .intro hinner h⟩
  · intro h
    match address, h with
    | 0 :: _, .intro h ⟨rfl, rfl⟩ => exact .own h
    | 1 :: _, ⟨_, hbody, .intro hinner h⟩ => exact .body hbody hinner h

/-- A decision has its conditions, then its body, then its alternatives. -/
theorem Decision.stands_iff (conditions : List Condition) (body : Option (List Decision))
    (elseIfs : List ElseIf) (closing : Option (List Decision)) (address : List Nat)
    (condition : Condition) :
    Decision.Stands ⟨conditions, body, elseIfs, closing⟩ address condition ↔
      Ahead (Among Condition.Stands conditions) (Ahead (StandsBetween body)
        (Ahead (Among ElseIf.Stands elseIfs) (Ahead (StandsBetween closing) Nowhere)))
          address condition := by
  constructor
  · rintro (h | ⟨hbody, hinner, h⟩ | ⟨halternative, h⟩ | ⟨hclosing, hinner, h⟩)
    · exact .intro h ⟨rfl, rfl⟩
    · exact ⟨_, hbody, .intro hinner h⟩
    · exact .intro halternative h
    · exact ⟨_, hclosing, .intro hinner h⟩
  · intro h
    match address, h with
    | 0 :: _, .intro h ⟨rfl, rfl⟩ => exact .own h
    | 1 :: _, ⟨_, hbody, .intro hinner h⟩ => exact .body hbody hinner h
    | 2 :: _, .intro halternative h => exact .elseIf halternative h
    | 3 :: _, ⟨_, hclosing, .intro hinner h⟩ => exact .otherwise hclosing hinner h

mutual

theorem Decision.firstMissing : ∀ decision : Decision,
    FirstMissing missing decision.Stands (decision.references.find? missing)
  | ⟨conditions, body, elseIfs, closing⟩ => by
      have hclosing : FirstMissing missing _ _ :=
        (firstMissing_block closing).ahead firstMissing_nowhere fun _ => id
      have helseIfs := (firstMissing_elseIfs elseIfs).ahead hclosing fun _ => id
      have hbody := (firstMissing_block body).ahead helseIfs fun _ => id
      have hall := (firstMissing_conditions conditions).ahead hbody fun _ => id
      rw [Decision.references, List.find?_append, List.find?_append, List.find?_append,
        Option.or_assoc, Option.or_assoc]
      rw [Option.or_none] at hall
      exact hall.of_iff (Decision.stands_iff conditions body elseIfs closing)

theorem firstMissing_block : ∀ block : Option (List Decision),
    FirstMissing missing (StandsBetween block) ((blockReferences block).find? missing)
  | none => .none fun _ _ ⟨_, h, _⟩ => by cases h
  | some decisions => by
      refine (firstMissing_decisions decisions).of_iff fun address condition => ?_
      exact ⟨fun ⟨_, h, hstands⟩ => by cases h; exact hstands, fun h => ⟨_, rfl, h⟩⟩

/-- The first name that is missing in several decisions is the one at the least
address. -/
theorem firstMissing_decisions : ∀ decisions : List Decision,
    FirstMissing missing (Among Decision.Stands decisions)
      ((decisionReferences decisions).find? missing)
  | [] => firstMissing_among_nil
  | decision :: rest => by
      rw [decisionReferences, List.find?_append]
      exact decision.firstMissing.among_cons (firstMissing_decisions rest)

theorem firstMissing_elseIfs : ∀ elseIfs : List ElseIf,
    FirstMissing missing (Among ElseIf.Stands elseIfs)
      ((elseIfReferences elseIfs).find? missing)
  | [] => firstMissing_among_nil
  | ⟨conditions, body⟩ :: rest => by
      have hbody : FirstMissing missing _ _ :=
        (firstMissing_block body).ahead firstMissing_nowhere fun _ => id
      have hall := (firstMissing_conditions conditions).ahead hbody fun _ => id
      rw [elseIfReferences, List.find?_append, List.find?_append]
      rw [Option.or_none] at hall
      have hfirst := hall.of_iff (ElseIf.stands_iff conditions body)
      exact hfirst.among_cons (firstMissing_elseIfs rest)

end

theorem nodup_extended {names : List String} {name : String} (hnames : names.Nodup)
    (hnew : name ∉ names) : (names ++ [name]).Nodup :=
  List.nodup_append_comm.mp (List.nodup_cons.mpr ⟨hnew, hnames⟩)

theorem not_mem_of_nodup {names rest : List String} {name : String}
    (h : (names ++ name :: rest).Nodup) : name ∉ names := fun hin =>
  (List.nodup_append.mp h).2.2 name hin name List.mem_cons_self rfl

/-- What the search for an undeclared name finds in a feature. -/
theorem Feature.firstMissing_references (feature : Feature) :
    FirstMissing (fun name => decide (name ∉ feature.names)) feature.Stands
      (feature.references.find? fun name => decide (name ∉ feature.names)) :=
  firstMissing_decisions feature.decisions

/-- When no declaration repeats another, the first fault is the undeclared name that is
read first. -/
theorem firstFault_iff {feature : Feature} {error : CompileError}
    (hdistinct : feature.names.Nodup) : feature.FirstFault error ↔
      ∃ name, FirstMissing (fun name => decide (name ∉ feature.names)) feature.Stands
        (some name) ∧ error = .undefinedVariable name := by
  constructor
  · rintro (⟨h, -, hrepeats⟩ | ⟨-, h, hmissing, hfirst⟩)
    · have hnames := hdistinct
      rw [Feature.names, h, List.map_append] at hnames
      exact absurd hrepeats (not_mem_of_nodup hnames)
    · refine ⟨_, .some h (decide_eq_true hmissing) fun _ _ h' hmissing' => ?_, rfl⟩
      exact hfirst _ _ h' (of_decide_eq_true hmissing')
  · rintro ⟨_, hfound, rfl⟩
    cases hfound with
    | some h hmissing hfirst =>
        exact .undeclared hdistinct h (of_decide_eq_true hmissing) fun _ _ h' hmissing' =>
          hfirst _ _ h' (decide_eq_true hmissing')

/-! ## Declarations -/

namespace Scope

/-- Declaring succeeds exactly if no name occurs twice, and then all names are in
scope. -/
theorem declare_eq_ok_iff : ∀ {declared : List Variable} {scope after : Scope},
    scope.names.Nodup → (scope.declare declared = (after, .ok ()) ↔
      after.names = scope.names ++ declared.map Variable.name ∧ after.names.Nodup)
  | [], scope, after, hscope => by
      obtain ⟨names⟩ := after
      constructor
      · intro h
        obtain rfl : scope = ⟨names⟩ := (Prod.mk.inj h).1
        exact ⟨by simp, hscope⟩
      · rintro ⟨hnames, -⟩
        simp only [List.map_nil, List.append_nil] at hnames
        rw [hnames]
        rfl
  | first :: rest, scope, after, hscope => by
      unfold declare
      split
      · next hin =>
          refine ⟨nofun, ?_⟩
          rintro ⟨hnames, hnodup⟩
          rw [hnames] at hnodup
          exact absurd hin (not_mem_of_nodup hnodup)
      · next hnew =>
          rw [declare_eq_ok_iff (nodup_extended hscope hnew)]
          simp

/-- Declaring fails with the first name that is in scope already. -/
theorem declare_eq_error_iff : ∀ {declared : List Variable} {scope : Scope}
    {error : CompileError}, scope.names.Nodup → ((scope.declare declared).2 = .error error ↔
      ∃ earlier again later, declared = earlier ++ again :: later ∧
        (scope.names ++ earlier.map Variable.name).Nodup ∧
        again.name ∈ scope.names ++ earlier.map Variable.name ∧
        error = .duplicateVariable again.name)
  | [], scope, error, _ => by
      refine ⟨nofun, ?_⟩
      rintro ⟨earlier, again, later, h, -⟩
      simp at h
  | first :: rest, scope, error, hscope => by
      unfold declare
      split
      · next hin =>
          constructor
          · rintro ⟨⟩
            exact ⟨[], first, rest, rfl, by simpa using hscope, by simpa using hin, rfl⟩
          · rintro ⟨_ | ⟨_, earlier⟩, again, later, ⟨⟩, hnodup, -, rfl⟩
            · rfl
            · exact absurd hin (not_mem_of_nodup hnodup)
      · next hnew =>
          rw [declare_eq_error_iff (nodup_extended hscope hnew)]
          constructor
          · rintro ⟨earlier, again, later, rfl, hnodup, hagain, rfl⟩
            exact ⟨first :: earlier, again, later, rfl, by simpa using hnodup,
              by simpa using hagain, rfl⟩
          · rintro ⟨_ | ⟨_, earlier⟩, again, later, ⟨⟩, hnodup, hagain, rfl⟩
            · exact absurd (by simpa using hagain) hnew
            · exact ⟨earlier, again, later, rfl, by simpa using hnodup, by simpa using hagain, rfl⟩

variable {scope : Scope} {feature : Feature} {error : CompileError}

/-- Distinct declarations are in scope afterwards, and the references are left to check.  The
analysis clears the scope first, so it does not matter what was in it. -/
theorem analyze_of_nodup (hdistinct : feature.names.Nodup) :
    (scope.analyze feature).2 = (Scope.mk feature.names).checkReferences feature.references := by
  have hdeclare : scope.clear.declare feature.declarations = (⟨feature.names⟩, .ok ()) :=
    (declare_eq_ok_iff List.nodup_nil).mpr ⟨rfl, hdistinct⟩
  simp only [analyze, hdeclare]

/-- When a declaration repeats another, the references are not looked at. -/
theorem analyze_of_not_nodup (hrepeats : ¬ feature.names.Nodup) :
    ∃ error, (scope.clear.declare feature.declarations).2 = .error error ∧
      (scope.analyze feature).2 = .error error := by
  match hdeclare : scope.clear.declare feature.declarations with
  | (after, .error error) => exact ⟨error, rfl, by simp only [analyze, hdeclare]⟩
  | (after, .ok ()) =>
      obtain ⟨hnames, hnodup⟩ := (declare_eq_ok_iff List.nodup_nil).mp hdeclare
      rw [hnames] at hnodup
      exact absurd hnodup hrepeats

/-- Whatever stops the analysis is the first fault of the feature. -/
theorem analyze_eq_error_iff :
    (scope.analyze feature).2 = .error error ↔ feature.FirstFault error := by
  by_cases hdistinct : feature.names.Nodup
  · have hfound := feature.firstMissing_references
    rw [analyze_of_nodup hdistinct, firstFault_iff hdistinct, checkReferences]
    split
    · next name hname =>
        rw [hname] at hfound
        constructor
        · rintro ⟨⟩
          exact ⟨name, hfound, rfl⟩
        · rintro ⟨name', hfound', rfl⟩
          rw [Option.some_inj.mp (hfound.unique hfound' Feature.Stands.unique)]
    · next hnone =>
        rw [hnone] at hfound
        refine ⟨nofun, ?_⟩
        rintro ⟨name', hfound', -⟩
        cases hfound.unique hfound' Feature.Stands.unique
  · have hclear : scope.clear.names.Nodup := List.nodup_nil
    obtain ⟨fault, hdeclare, hanalyze⟩ := @analyze_of_not_nodup scope feature hdistinct
    rw [hanalyze, ← hdeclare, declare_eq_error_iff hclear]
    constructor
    · rintro ⟨earlier, again, later, h, hearlier, hagain, rfl⟩
      exact .repeated h hearlier hagain
    · rintro (⟨h, hearlier, hagain⟩ | ⟨hnames, -⟩)
      · exact ⟨_, _, _, h, hearlier, hagain, rfl⟩
      · exact absurd hnames hdistinct

/-- The analysis succeeds exactly if the declared names are distinct and every condition,
at any depth, is about one of them; otherwise it reports the first fault.  It is the same
after whatever was analysed before. -/
theorem analyze_first_fault (scope : Scope) (feature : Feature) :
    ((scope.analyze feature).2 = .ok () ↔ feature.names.Nodup ∧
      ∀ address condition, feature.Stands address condition → condition.name ∈ feature.names) ∧
    ∀ error, (scope.analyze feature).2 = .error error ↔ feature.FirstFault error := by
  refine ⟨⟨fun hok => ?_, fun ⟨hdistinct, hall⟩ => ?_⟩, fun error => analyze_eq_error_iff⟩
  · by_cases hdistinct : feature.names.Nodup
    · have hfound := feature.firstMissing_references
      rw [analyze_of_nodup hdistinct, checkReferences_eq_ok_iff] at hok
      rw [List.find?_eq_none.mpr fun name hname => by simpa using hok name hname] at hfound
      cases hfound with
      | none hall =>
          exact ⟨hdistinct, fun address condition h => by simpa using hall address condition h⟩
    · obtain ⟨error, -, hanalyze⟩ := @analyze_of_not_nodup scope feature hdistinct
      rw [hanalyze] at hok
      cases hok
  · match hanalyze : (scope.analyze feature).2 with
    | .ok () => rfl
    | .error error =>
        cases analyze_eq_error_iff.mp hanalyze with
        | repeated h _ hrepeats =>
            rw [Feature.names, h, List.map_append] at hdistinct
            exact absurd hrepeats (not_mem_of_nodup hdistinct)
        | undeclared _ h hmissing => exact absurd (hall _ _ h) hmissing

end Scope

end DecisionTuples
