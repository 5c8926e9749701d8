import Mathlib.Data.List.Forall2

/-!
# Computations that may fail

What it takes for a computation that may end in an error to succeed: each of its
steps has succeeded.  Two computations `Agree` if they end in the same error, or both
succeed with related results; they do if their steps do.
-/

namespace DecisionTuples

variable {α β γ δ ε : Type}

theorem bind_eq_ok {x : Except ε α} {f : α → Except ε β} {b : β} (h : (x >>= f) = .ok b) :
    ∃ a, x = .ok a ∧ f a = .ok b := by
  cases x with
  | error e => cases h
  | ok a => exact ⟨a, rfl, h⟩

theorem bind_eq_error_iff {x : Except ε α} {f : α → Except ε β} {e : ε} :
    (x >>= f) = .error e ↔ x = .error e ∨ ∃ a, x = .ok a ∧ f a = .error e := by
  cases x with
  | error e' => simp [bind, Except.bind]
  | ok a => simp [bind, Except.bind]

theorem mapError_eq_ok {ε' : Type} {x : Except ε α} {f : ε → ε'} {a : α}
    (h : x.mapError f = .ok a) : x = .ok a := by
  cases x with
  | error e => cases h
  | ok a' => cases h; rfl

theorem mapError_eq_error {ε' : Type} {x : Except ε α} {f : ε → ε'} {e' : ε'}
    (h : x.mapError f = .error e') : ∃ e, x = .error e ∧ f e = e' := by
  cases x with
  | error e => exact ⟨e, rfl, Except.error.inj h⟩
  | ok a => cases h

theorem exists_ok_of_any {x : Except ε α} {p : α → Bool} (h : x.toOption.any p = true) :
    ∃ a, x = .ok a ∧ p a = true := by
  cases x with
  | error e => cases h
  | ok a => exact ⟨a, rfl, h⟩

/-- Mapping succeeds if every element does, and then gives the results in order. -/
theorem mapM_eq_ok_iff {f : α → Except ε β} {xs : List α} {ys : List β} :
    xs.mapM f = .ok ys ↔ List.Forall₂ (fun x y => f x = .ok y) xs ys := by
  induction xs generalizing ys with
  | nil =>
      rw [List.mapM_nil, List.forall₂_nil_left_iff]
      exact ⟨fun h => by cases h; rfl, fun h => by rw [h]; rfl⟩
  | cons x xs ih =>
      rw [List.mapM_cons, List.forall₂_cons_left_iff]
      constructor
      · intro h
        obtain ⟨y, hx, h⟩ := bind_eq_ok h
        obtain ⟨rest, hxs, h⟩ := bind_eq_ok h
        cases h
        exact ⟨y, rest, hx, ih.mp hxs, rfl⟩
      · rintro ⟨y, rest, hx, hxs, rfl⟩
        rw [hx, ih.mpr hxs]
        rfl

/-- Mapping fails if some element does, and then with the error of the first one. -/
theorem mapM_eq_error_iff {f : α → Except ε β} {xs : List α} {e : ε} :
    xs.mapM f = .error e ↔ ∃ front x rest, xs = front ++ x :: rest ∧
      (∀ y ∈ front, ∃ b, f y = .ok b) ∧ f x = .error e := by
  induction xs with
  | nil => simp [pure, Except.pure]
  | cons x xs ih =>
      rw [List.mapM_cons, bind_eq_error_iff]
      constructor
      · rintro (hx | ⟨y, hx, h⟩)
        · exact ⟨[], x, xs, rfl, by simp, hx⟩
        · rcases bind_eq_error_iff.mp h with hxs | ⟨ys, -, h⟩
          · obtain ⟨front, z, rest, rfl, hfront, hz⟩ := ih.mp hxs
            exact ⟨x :: front, z, rest, rfl, List.forall_mem_cons.mpr ⟨⟨y, hx⟩, hfront⟩, hz⟩
          · cases h
      · rintro ⟨front, z, rest, heq, hfront, hz⟩
        cases front with
        | nil =>
            cases heq
            exact .inl hz
        | cons w front =>
            cases heq
            obtain ⟨⟨b, hb⟩, hfront⟩ := List.forall_mem_cons.mp hfront
            have hxs := ih.mpr ⟨front, z, rest, rfl, hfront, hz⟩
            exact .inr ⟨b, hb, by rw [hxs]; rfl⟩

theorem exists_mem_of_forall₂ {R : α → β → Prop} {xs : List α} {ys : List β}
    (h : List.Forall₂ R xs ys) {x : α} (hx : x ∈ xs) : ∃ y ∈ ys, R x y := by
  induction h with
  | nil => cases hx
  | cons hxy _ ih =>
      rcases List.mem_cons.mp hx with rfl | hx
      · exact ⟨_, List.mem_cons_self, hxy⟩
      · obtain ⟨y, hy, hxy⟩ := ih hx
        exact ⟨y, List.mem_cons_of_mem _ hy, hxy⟩

/-- A relation between two lists that comes down to a property of the first one. -/
theorem forall₂_iff_forall_mem {R S : α → β → Prop} {P : α → Prop} {xs : List α} {ys : List β}
    (h : List.Forall₂ R xs ys) (hSP : ∀ x y, R x y → (S x y ↔ P x)) :
    List.Forall₂ S xs ys ↔ ∀ x ∈ xs, P x := by
  induction h with
  | nil => simp
  | cons hxy _ ih => rw [List.forall₂_cons, List.forall_mem_cons, hSP _ _ hxy, ih]

/-! ## Computations that agree -/

/-- Both computations end in the same error, or both succeed, with related results. -/
inductive Agree (R : α → β → Prop) : Except ε α → Except ε β → Prop
  | error (e : ε) : Agree R (.error e) (.error e)
  | ok {a : α} {b : β} (h : R a b) : Agree R (.ok a) (.ok b)

namespace Agree

variable {R : α → β → Prop} {S : γ → δ → Prop} {x : Except ε α} {y : Except ε β}

theorem bind {f : α → Except ε γ} {g : β → Except ε δ} (h : Agree R x y)
    (hfg : ∀ a b, R a b → Agree S (f a) (g b)) : Agree S (x >>= f) (y >>= g) := by
  cases h with
  | error e => exact .error e
  | ok h => exact hfg _ _ h

theorem imp {R' : α → β → Prop} (h : Agree R x y) (himp : ∀ a b, R a b → R' a b) :
    Agree R' x y := by
  cases h with
  | error e => exact .error e
  | ok h => exact .ok (himp _ _ h)

theorem trans {T : β → γ → Prop} {z : Except ε γ} (h : Agree R x y) (h' : Agree T y z) :
    Agree (fun a c => ∃ b, R a b ∧ T b c) x z := by
  cases h with
  | error e =>
      cases h'
      exact .error e
  | ok h =>
      cases h' with
      | ok h' => exact .ok ⟨_, h, h'⟩

theorem exists_ok {a : α} (h : Agree R x y) (hx : x = .ok a) : ∃ b, y = .ok b ∧ R a b := by
  subst hx
  cases h with
  | ok h => exact ⟨_, rfl, h⟩

end Agree

/-- Mapping agrees where it does for each element. -/
theorem agree_mapM {R : α → β → Prop} {f : γ → Except ε α} {g : δ → Except ε β} {xs : List γ}
    {ys : List δ} (h : List.Forall₂ (fun x y => Agree R (f x) (g y)) xs ys) :
    Agree (List.Forall₂ R) (xs.mapM f) (ys.mapM g) := by
  induction h with
  | nil => exact .ok .nil
  | cons hfirst _ ih =>
      rw [List.mapM_cons, List.mapM_cons]
      refine hfirst.bind fun a b hab => ?_
      refine ih.bind fun as bs habs => ?_
      exact .ok (.cons hab habs)

end DecisionTuples
