import Mathlib.Data.List.Forall2
/-!
  Computations that agree.

  Two computations agree along a relation when both fail with the same error, or both end with related
  results.  Agreement goes through sequences and lists of computations, so two long computations agree as
  soon as their steps do.
-/

namespace ExprGraph

variable {ε α β γ δ : Type} {R : α → β → Prop} {S : γ → δ → Prop}

/-- A sequence that ends well ends well in its first part, and goes on from there. -/
theorem exists_of_bind_eq_ok {x : Except ε α} {f : α → Except ε β} {b : β} (h : x >>= f = .ok b) :
    ∃ a, x = .ok a ∧ f a = .ok b := by
  cases x with
  | ok a => exact ⟨a, rfl, h⟩
  | error e => cases h

/-- A result that was mapped comes from a result. -/
theorem exists_of_map_eq_ok {x : Except ε α} {f : α → β} {b : β} (h : x.map f = .ok b) :
    ∃ a, x = .ok a ∧ f a = b := by
  cases x with
  | ok a => exact ⟨a, rfl, Except.ok.inj h⟩
  | error e => cases h

/-- **The same error, or related results.** -/
inductive Agree (R : α → β → Prop) : Except ε α → Except ε β → Prop where
  | ok {a : α} {b : β} (h : R a b) : Agree R (.ok a) (.ok b)
  | error (e : ε) : Agree R (.error e) (.error e)

namespace Agree

theorem same (x : Except ε α) : Agree Eq x x := by
  cases x with
  | ok a => exact .ok rfl
  | error e => exact .error e

theorem eq {x y : Except ε α} (h : Agree Eq x y) : x = y := by
  cases h with
  | ok hab => exact congrArg Except.ok hab
  | error e => rfl

theorem bind {x : Except ε α} {y : Except ε β} {f : α → Except ε γ} {g : β → Except ε δ}
    (h : Agree R x y) (hf : ∀ a b, R a b → Agree S (f a) (g b)) : Agree S (x >>= f) (y >>= g) := by
  cases h with
  | ok hab => exact hf _ _ hab
  | error e => exact .error e

theorem imp {x : Except ε α} {y : Except ε β} {T : α → β → Prop} (h : Agree R x y)
    (hi : ∀ a b, R a b → T a b) : Agree T x y := by
  cases h with
  | ok hab => exact .ok (hi _ _ hab)
  | error e => exact .error e

theorem map {x : Except ε α} {y : Except ε β} {f : α → γ} {g : β → δ} (h : Agree R x y)
    (hf : ∀ a b, R a b → S (f a) (g b)) : Agree S (x.map f) (y.map g) := by
  cases h with
  | ok hab => exact .ok (hf _ _ hab)
  | error e => exact .error e

theorem map_left {x : Except ε α} {y : Except ε β} {T : γ → β → Prop} {f : α → γ} (h : Agree R x y)
    (hf : ∀ a b, R a b → T (f a) b) : Agree T (x.map f) y := by
  cases h with
  | ok hab => exact .ok (hf _ _ hab)
  | error e => exact .error e

theorem map_right {x : Except ε α} {y : Except ε β} {T : α → δ → Prop} {g : β → δ} (h : Agree R x y)
    (hg : ∀ a b, R a b → T a (g b)) : Agree T x (y.map g) := by
  cases h with
  | ok hab => exact .ok (hg _ _ hab)
  | error e => exact .error e

/-- Computations agree before their results are mapped as they do afterwards. -/
theorem of_map {x : Except ε α} {y : Except ε β} {f : α → γ} {g : β → δ}
    (h : Agree S (x.map f) (y.map g)) : Agree (fun a b => S (f a) (g b)) x y := by
  cases x with
  | ok a =>
    cases y with
    | ok b =>
      cases h with
      | ok hab => exact .ok hab
    | error e => cases h
  | error e =>
    cases y with
    | ok b => cases h
    | error e' =>
      cases h with
      | error => exact .error _

/-- A computation fails when its partner does, with the same error. -/
theorem error_iff {x : Except ε α} {y : Except ε β} (h : Agree R x y) {e : ε} :
    x = .error e ↔ y = .error e := by
  cases h with
  | ok hab =>
    constructor <;> intro he <;> cases he
  | error e' =>
    constructor <;> intro he
    · exact congrArg _ (Except.error.inj he)
    · exact congrArg _ (Except.error.inj he)

/-- A computation that ends well has its partner end well. -/
theorem exists_of_ok {x : Except ε α} {y : Except ε β} {a : α} (h : Agree R x y) (hx : x = .ok a) :
    ∃ b, y = .ok b ∧ R a b := by
  cases h with
  | ok hab =>
    obtain rfl := Except.ok.inj hx
    exact ⟨_, rfl, hab⟩
  | error e => cases hx

/-- A computation ends well when its partner does. -/
theorem exists_of_ok_right {x : Except ε α} {y : Except ε β} {b : β} (h : Agree R x y) (hy : y = .ok b) :
    ∃ a, x = .ok a ∧ R a b := by
  cases h with
  | ok hab =>
    obtain rfl := Except.ok.inj hy
    exact ⟨_, rfl, hab⟩
  | error e => cases hy

/-- Computations that agree at each member of a list agree along the list. -/
theorem mapM {f : α → Except ε β} {g : α → Except ε γ} {T : β → γ → Prop} {as : List α}
    (h : ∀ a ∈ as, Agree T (f a) (g a)) : Agree (List.Forall₂ T) (as.mapM f) (as.mapM g) := by
  induction as with
  | nil => exact .ok .nil
  | cons a as ih =>
    rw [List.mapM_cons, List.mapM_cons]
    refine (h a List.mem_cons_self).bind fun b c hbc => ?_
    refine (ih fun d hd => h d (List.mem_cons_of_mem a hd)).bind fun bs cs hs => ?_
    exact .ok (.cons hbc hs)

end Agree

end ExprGraph
