import GittyUp.Lib.Transition
import Mathlib.Logic.Function.Basic

/-!
# Programs that talk to a shared store

A program returns, aborts, or issues a query and goes on with the reply. It can
be run alone against a store, or in a pool of threads whose queries, each
atomic, are interleaved in any order. What every query of a program keeps, the
whole run keeps (`Issues.run_invariant`), and what every query of every thread
keeps, every interleaving keeps (`Pool.invariant`). Where a query depends on the
replies before it, `Pool.assertions` carries an assertion for each thread.
-/

namespace Lib

variable {ε Q R α β S ι : Type}

/-- A program with queries `Q`, replies `R`, results `α` and failures `ε`. -/
inductive Prog (ε Q R α : Type) : Type where
  | ret (a : α)
  | abort (e : ε)
  | call (q : Q) (k : R → Prog ε Q R α)

namespace Prog

/-- Sequential composition. -/
def bind : Prog ε Q R α → (α → Prog ε Q R β) → Prog ε Q R β
  | .ret a, f => f a
  | .abort e, _ => .abort e
  | .call q k, f => .call q fun r => (k r).bind f

instance : Monad (Prog ε Q R) where
  pure := .ret
  bind := .bind

@[simp] theorem pure_eq (a : α) : (pure a : Prog ε Q R α) = .ret a := rfl

@[simp] theorem ret_bind (a : α) (f : α → Prog ε Q R β) : Prog.ret a >>= f = f a := rfl

@[simp] theorem abort_bind (e : ε) (f : α → Prog ε Q R β) : Prog.abort e >>= f = .abort e := rfl

@[simp] theorem call_bind (q : Q) (k : R → Prog ε Q R α) (f : α → Prog ε Q R β) :
    Prog.call q k >>= f = .call q fun r => k r >>= f := rfl

/-! ## One program alone -/

/-- Run a program against a store. -/
def run (exec : S → Q → R × S) : Prog ε Q R α → S → Except ε α × S
  | .ret a, s => (.ok a, s)
  | .abort e, s => (.error e, s)
  | .call q k, s => (k (exec s q).1).run exec (exec s q).2

/-- Every query that the program may issue satisfies `P`, whatever the replies. -/
def Issues (P : Q → Prop) : Prog ε Q R α → Prop
  | .ret _ => True
  | .abort _ => True
  | .call q k => P q ∧ ∀ r, (k r).Issues P

/-- The program issues the query `q`, and returns whatever the reply is. -/
def IssuesOnce (q : Q) (p : Prog ε Q R α) : Prop :=
  ∃ result : R → α, p = .call q fun reply => .ret (result reply)

theorem Issues.mono {P P' : Q → Prop} (hP : ∀ q, P q → P' q) {p : Prog ε Q R α}
    (h : p.Issues P) : p.Issues P' := by
  induction p with
  | ret a => trivial
  | abort e => trivial
  | call q k ih => exact ⟨hP q h.1, fun r => ih r (h.2 r)⟩

theorem Issues.bind {P : Q → Prop} {p : Prog ε Q R α} {f : α → Prog ε Q R β} (h : p.Issues P)
    (hf : ∀ a, (f a).Issues P) : (p >>= f).Issues P := by
  induction p with
  | ret a => exact hf a
  | abort e => trivial
  | call q k ih => exact ⟨h.1, fun r => ih r (h.2 r)⟩

/-- **A run keeps what each of its queries keeps.** -/
theorem Issues.run_invariant {exec : S → Q → R × S} {P : Q → Prop} {I : S → Prop}
    {p : Prog ε Q R α} (h : p.Issues P) (hstep : ∀ s q, P q → I s → I (exec s q).2) {s : S}
    (hs : I s) : I (p.run exec s).2 := by
  induction p generalizing s with
  | ret a => exact hs
  | abort e => exact hs
  | call q k ih => exact ih _ (h.2 _) (hstep s q h.1 hs)

end Prog

namespace Prog

/-- The program may return `a`, if it gets the right replies. -/
def Yields : Prog ε Q R α → α → Prop
  | .ret b, a => b = a
  | .abort _, _ => False
  | .call _ k, a => ∃ r, (k r).Yields a

theorem yields_bind {p : Prog ε Q R α} {f : α → Prog ε Q R β} {b : β} :
    (p >>= f).Yields b ↔ ∃ a, p.Yields a ∧ (f a).Yields b := by
  induction p with
  | ret a => simp [Yields]
  | abort e => simp [Yields]
  | call q k ih =>
    rw [call_bind]
    simp only [Yields, ih]
    exact exists_comm.trans (exists_congr fun a => exists_and_right)

theorem yields_of_run {exec : S → Q → R × S} {p : Prog ε Q R α} {s s' : S} {a : α}
    (h : p.run exec s = (.ok a, s')) : p.Yields a := by
  induction p generalizing s with
  | ret b => exact Except.ok.inj (congrArg Prod.fst h)
  | abort e => cases h
  | call q k ih => exact ⟨_, ih _ h⟩

end Prog

/-! ## A pool of threads -/

/-- A query executed by a thread, with its reply. -/
structure Event (ι Q R : Type) where
  thread : ι
  query : Q
  reply : R

/-- The shared store, what each thread has left to do, and the queries executed
so far, oldest first. -/
structure Pool (ε Q R α S ι : Type) where
  shared : S
  threads : ι → Prog ε Q R α
  trace : List (Event ι Q R)

namespace Pool

variable [DecidableEq ι]

/-- The pool after the thread `i` has executed `q` and goes on with `k`. -/
def executed (exec : S → Q → R × S) (s : Pool ε Q R α S ι) (i : ι) (q : Q)
    (k : R → Prog ε Q R α) : Pool ε Q R α S ι :=
  ⟨(exec s.shared q).2, Function.update s.threads i (k (exec s.shared q).1),
    s.trace ++ [⟨i, q, (exec s.shared q).1⟩]⟩

/-- Some thread executes its next query. -/
inductive Step (exec : S → Q → R × S) : Pool ε Q R α S ι → Pool ε Q R α S ι → Prop
  | call {s : Pool ε Q R α S ι} {i : ι} {q : Q} {k : R → Prog ε Q R α} :
      s.threads i = .call q k → Step exec s (s.executed exec i q k)

/-- The pool before any thread has executed a query. -/
def start (shared : S) (threads : ι → Prog ε Q R α) : Pool ε Q R α S ι := ⟨shared, threads, []⟩

/-- Let the threads take steps in the order of a schedule, if they all can. -/
def play (exec : S → Q → R × S) : List ι → Pool ε Q R α S ι → Option (Pool ε Q R α S ι)
  | [], s => some s
  | i :: schedule, s =>
    match s.threads i with
    | .call q k => play exec schedule (s.executed exec i q k)
    | _ => none

theorem reachable_of_play {exec : S → Q → R × S} {schedule : List ι} {s s' : Pool ε Q R α S ι}
    (h : s.play exec schedule = some s') : Reachable (Step exec) s s' := by
  induction schedule generalizing s with
  | nil =>
    obtain rfl := Option.some.inj h
    exact .refl
  | cons i schedule ih =>
    rw [play] at h
    split at h
    · next q k hi => exact .head (.call hi) (ih h)
    · contradiction

/-- A thread never issues a query that its program could not issue. -/
theorem issues_of_step {exec : S → Q → R × S} {P : ι → Q → Prop} {s s' : Pool ε Q R α S ι}
    (h : ∀ i, (s.threads i).Issues (P i)) (hstep : Step exec s s') :
    ∀ i, (s'.threads i).Issues (P i) := by
  cases hstep with
  | @call i q k hi =>
    intro j
    show (Function.update s.threads i (k (exec s.shared q).1) j).Issues (P j)
    by_cases hj : j = i
    · subst hj
      rw [Function.update_self]
      have hcall := h j
      rw [hi] at hcall
      exact hcall.2 _
    · rw [Function.update_of_ne hj]
      exact h j

/-- **An interleaving keeps what each query of each thread keeps.** The
invariant may speak about the queries executed so far. -/
theorem invariant {exec : S → Q → R × S} {P : ι → Q → Prop}
    {I : S → List (Event ι Q R) → Prop} {s₀ s : Pool ε Q R α S ι}
    (h : Reachable (Step exec) s₀ s) (hissues : ∀ i, (s₀.threads i).Issues (P i))
    (hinit : I s₀.shared s₀.trace)
    (hstep : ∀ s trace i q, P i q → I s trace →
      I (exec s q).2 (trace ++ [⟨i, q, (exec s q).1⟩])) :
    I s.shared s.trace := by
  have hboth := h.invariant
    (P := fun s => (∀ i, (s.threads i).Issues (P i)) ∧ I s.shared s.trace) ⟨hissues, hinit⟩ ?_
  · exact hboth.2
  · intro s s' ⟨hs, hinv⟩ hs'
    refine ⟨issues_of_step hs hs', ?_⟩
    cases hs' with
    | @call i q k hi =>
      have hcall := hs i
      rw [hi] at hcall
      exact hstep _ _ i q hcall.1 hinv

/-- **Assertions of threads.** `A g i` says what the thread `i` has left to do,
and `I g` what the store is like, if the ghost state is `g`. An executed query
moves the ghost on, keeps the store as it should be, and interferes with the
assertion of no other thread. -/
theorem assertions {γ : Type} {exec : S → Q → R × S} {I : γ → S → Prop}
    {A : γ → ι → Prog ε Q R α → Prop} {s₀ s : Pool ε Q R α S ι}
    (h : Reachable (Step exec) s₀ s) {g₀ : γ} (hinit : I g₀ s₀.shared)
    (hthreads : ∀ i, A g₀ i (s₀.threads i))
    (hstep : ∀ g db i q k, I g db → A g i (.call q k) →
      ∃ g', I g' (exec db q).2 ∧ A g' i (k (exec db q).1) ∧ ∀ j p, j ≠ i → A g j p → A g' j p) :
    ∃ g, I g s.shared ∧ ∀ i, A g i (s.threads i) := by
  refine h.invariant (P := fun s => ∃ g, I g s.shared ∧ ∀ i, A g i (s.threads i))
    ⟨g₀, hinit, hthreads⟩ ?_
  rintro s s' ⟨g, hI, hA⟩ hs'
  cases hs' with
  | @call i q k hi =>
    obtain ⟨g', hI', hself, hothers⟩ := hstep g s.shared i q k hI (hi ▸ hA i)
    refine ⟨g', hI', fun j => ?_⟩
    show A g' j (Function.update s.threads i (k (exec s.shared q).1) j)
    by_cases hj : j = i
    · subst hj
      rw [Function.update_self]
      exact hself
    · rw [Function.update_of_ne hj]
      exact hothers j _ hj (hA j)

end Pool

end Lib
