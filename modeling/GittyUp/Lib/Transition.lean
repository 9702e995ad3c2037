import Mathlib.Logic.Relation

/-!
# Transition systems

A system is a step relation on states. What holds at the start and is kept by
every step holds in every reachable state.
-/

namespace Lib

universe u

variable {σ : Type u}

/-- `s` is reached from `init` by some number of steps. -/
def Reachable (step : σ → σ → Prop) (init s : σ) : Prop :=
  Relation.ReflTransGen step init s

namespace Reachable

variable {step : σ → σ → Prop} {init s s' : σ}

theorem refl : Reachable step init init := Relation.ReflTransGen.refl

theorem tail (h : Reachable step init s) (hstep : step s s') : Reachable step init s' :=
  Relation.ReflTransGen.tail h hstep

theorem head (hstep : step init s) (h : Reachable step s s') : Reachable step init s' :=
  Relation.ReflTransGen.head hstep h

/-- **The invariant rule.** -/
theorem invariant {P : σ → Prop} (h : Reachable step init s) (hinit : P init)
    (hstep : ∀ s s', P s → step s s' → P s') : P s := by
  induction h with
  | refl => exact hinit
  | tail _ hs ih => exact hstep _ _ ih hs

end Reachable

end Lib
