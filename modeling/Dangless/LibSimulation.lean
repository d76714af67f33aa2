import Mathlib.Logic.Basic
import Mathlib.Tactic.Common

/-! Computations that may stop with an error against descriptions of them: both return, with related answers, or
both stop with the same error. -/

universe u v w

variable {ε : Type u} {α α' : Type v} {β β' : Type w} {allowed : ε → Prop} {R : α → β → Prop}
  {R' : α' → β' → Prop}

/-- What a computation that returns has gone through. -/
theorem exists_of_bind_eq_ok {x : Except ε α} {f : α → Except ε α'} {a' : α'} (h : x >>= f = .ok a') :
    ∃ a, x = .ok a ∧ f a = .ok a' := by
  cases x with
  | ok a => exact ⟨a, rfl, h⟩
  | error e => cases h

/-- `x` returns exactly if `y` does, and then with a related answer; an error of `x` is that of `y`, an allowed
one. -/
inductive Simulates (allowed : ε → Prop) (R : α → β → Prop) : Except ε α → Except ε β → Prop
  | ok {a : α} {b : β} (h : R a b) : Simulates allowed R (.ok a) (.ok b)
  | error {e : ε} (h : allowed e) : Simulates allowed R (.error e) (.error e)

namespace Simulates

variable {x : Except ε α} {y : Except ε β}

theorem mono {R₂ : α → β → Prop} (h : Simulates allowed R x y) (hR : ∀ a b, R a b → R₂ a b) :
    Simulates allowed R₂ x y := by
  cases h with
  | ok hab => exact .ok (hR _ _ hab)
  | error he => exact .error he

/-- One computation after another. -/
theorem bind {f : α → Except ε α'} {g : β → Except ε β'} (h : Simulates allowed R x y)
    (hf : ∀ a b, R a b → Simulates allowed R' (f a) (g b)) :
    Simulates allowed R' (x >>= f) (y >>= g) := by
  cases h with
  | ok hab => exact hf _ _ hab
  | error he => exact .error he

/-- One computation after another, where it matters what the first answer is. -/
theorem bind_of {f : α → Except ε α'} {g : β → Except ε β'} (h : Simulates allowed R x y)
    (hf : ∀ a b, y = .ok b → R a b → Simulates allowed R' (f a) (g b)) :
    Simulates allowed R' (x >>= f) (y >>= g) := by
  cases h with
  | ok hab => exact hf _ _ rfl hab
  | error he => exact .error he

/-- A last step that always returns. -/
theorem bind_ok {f : α → α'} (h : Simulates allowed R x y) {R₂ : α' → β → Prop}
    (hf : ∀ a b, R a b → R₂ (f a) b) : Simulates allowed R₂ (x >>= fun a => .ok (f a)) y := by
  cases h with
  | ok hab => exact .ok (hf _ _ hab)
  | error he => exact .error he

theorem of_ok_right {b : β} (h : Simulates allowed R x (.ok b)) : ∃ a, x = .ok a ∧ R a b := by
  cases h with
  | ok hab => exact ⟨_, rfl, hab⟩

theorem of_ok {a : α} (h : Simulates allowed R (.ok a) y) : ∃ b, y = .ok b ∧ R a b := by
  cases h with
  | ok hab => exact ⟨_, rfl, hab⟩

theorem error_iff (h : Simulates allowed R x y) (e : ε) : x = .error e ↔ y = .error e := by
  cases h with
  | ok hab => exact iff_of_false nofun nofun
  | error he => rw [Except.error.injEq, Except.error.injEq]

theorem of_error {e : ε} (h : Simulates allowed R (.error e) y) : allowed e := by
  cases h with
  | error he => exact he

end Simulates
