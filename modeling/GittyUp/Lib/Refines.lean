import Mathlib.Algebra.Ring.Nat

/-!
# Refinement within a budget

A machine that performs one input after another refines an abstract one if it does
so input by input (`Refines`). Every input takes a part of a budget, such as numbers
that are never used twice, and the relation between the states says how much is left.
-/

namespace Lib

variable {ε S A I O : Type}

/-! ## Runs -/

/-- A run of the abstract machine, with the inputs that it takes and the outputs that
it gives. -/
inductive Runs (step : A → I → O → A → Prop) : A → List (I × O) → A → Prop
  | nil {a : A} : Runs step a [] a
  | cons {a a' a'' : A} {i : I} {o : O} {log : List (I × O)} : step a i o a' →
      Runs step a' log a'' → Runs step a ((i, o) :: log) a''

/-- One input after another, as long as none fails. -/
def performAll (perform : S → I → Except ε O × S) (s : S) :
    List I → Except ε (List (I × O)) × S
  | [] => (.ok [], s)
  | i :: inputs =>
    match perform s i with
    | (.error e, s') => (.error e, s')
    | (.ok o, s') =>
      let (log, s'') := performAll perform s' inputs
      (log.map ((i, o) :: ·), s'')

namespace Runs

variable {step : A → I → O → A → Prop} {a a' : A} {log log' : List (I × O)}

/-- **What every step keeps, every run keeps.** -/
theorem invariant {P : A → Prop} (h : Runs step a log a')
    (hstep : ∀ a a' i o, (i, o) ∈ log → step a i o a' → P a → P a') (ha : P a) : P a' := by
  induction h with
  | nil => exact ha
  | @cons a a' a'' i o log hfirst _ ih =>
    refine ih (fun a a' i o hmem => hstep a a' i o (List.mem_cons_of_mem _ hmem)) ?_
    exact hstep _ _ _ _ List.mem_cons_self hfirst ha

/-- Inputs may be named in another way. -/
theorem map {J : Type} {step : A → J → O → A → Prop} {f : I → J}
    (h : Runs (fun a i o a' => step a (f i) o a') a log a') :
    Runs step a (log.map fun e => (f e.1, e.2)) a' := by
  induction h with
  | nil => exact .nil
  | cons hfirst _ ih => exact .cons hfirst ih

/-- A run can be cut anywhere. -/
theorem append_iff {a'' : A} :
    Runs step a (log ++ log') a'' ↔ ∃ a', Runs step a log a' ∧ Runs step a' log' a'' := by
  induction log generalizing a with
  | nil =>
    constructor
    · exact fun h => ⟨a, .nil, h⟩
    · rintro ⟨a', hnil, h⟩
      cases hnil
      exact h
  | cons e log ih =>
    constructor
    · intro h
      cases h with
      | cons hfirst hrest =>
        obtain ⟨a', hlog, hlog'⟩ := ih.mp hrest
        exact ⟨a', .cons hfirst hlog, hlog'⟩
    · rintro ⟨a', h, h'⟩
      cases h with
      | cons hfirst hrest => exact .cons hfirst (ih.mpr ⟨a', hrest, h'⟩)

end Runs

/-! ## Refinement -/

/-- Whatever the machine is given that is `ok`, with the budget for it, it performs as
the abstract machine may. -/
def Refines (perform : S → I → Except ε O × S) (cost : I → Nat) (ok : I → Prop)
    (R : Nat → S → A → Prop) (step : A → I → O → A → Prop) : Prop :=
  ∀ n s a i, ok i → R (n + cost i) s a →
    ∃ o s' a', perform s i = (.ok o, s') ∧ step a i o a' ∧ R n s' a'

/-- **A machine that refines another one step by step refines it on every run.** -/
theorem Refines.performAll {perform : S → I → Except ε O × S} {cost : I → Nat} {ok : I → Prop}
    {R : Nat → S → A → Prop} {step : A → I → O → A → Prop}
    (h : Refines perform cost ok R step) {inputs : List I} (hok : ∀ i ∈ inputs, ok i) {n : Nat}
    {s : S} {a : A} (hR : R (n + (inputs.map cost).sum) s a) :
    ∃ log s' a', performAll perform s inputs = (.ok log, s') ∧ log.map Prod.fst = inputs ∧
      Runs step a log a' ∧ R n s' a' := by
  induction inputs generalizing s a with
  | nil =>
    exact ⟨[], s, a, rfl, rfl, .nil, hR⟩
  | cons i inputs ih =>
    obtain ⟨hi, hinputs⟩ := List.forall_mem_cons.mp hok
    rw [List.map_cons, List.sum_cons, Nat.add_comm (cost i), ← Nat.add_assoc] at hR
    obtain ⟨o, s', a', hperform, hstep, hR'⟩ := h _ s a i hi hR
    obtain ⟨log, s'', a'', hrest, hlog, hruns, hR''⟩ := ih hinputs hR'
    refine ⟨(i, o) :: log, s'', a'', ?_, congrArg (i :: ·) hlog, .cons hstep hruns, hR''⟩
    rw [Lib.performAll, hperform]
    dsimp only
    rw [hrest]
    rfl

end Lib
