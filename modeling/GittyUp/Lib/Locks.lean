import GittyUp.Lib.Transition
import Mathlib.Logic.Function.Basic

/-!
# Threads that take locks

A program locks and unlocks mutexes at named sites of the code, one mutex a
site, and between that looks at the shared state and changes it. Threads are
interleaved step by step. A set of threads is deadlocked when each of them waits
for a mutex that a thread of the set holds. `not_deadlocked_of_rank`: there is
none where the mutexes can be ranked such that a thread only waits for one of a
higher rank than all that it holds; `Nests` is how a program is seen to hold, at
every site, locks of given other sites only.
-/

namespace Lib

variable {κ μ σ ι : Type}

/-- The rest of a thread's program. -/
inductive LockProg (κ σ : Type) : Type where
  | done
  | acquire (site : κ) (next : LockProg κ σ)
  | release (site : κ) (next : LockProg κ σ)
  | look (next : σ → LockProg κ σ)
  | modify (f : σ → σ) (next : LockProg κ σ)

namespace LockProg

/-- The program run alone: what it leaves of the shared state. -/
def run : LockProg κ σ → σ → σ
  | .done, s => s
  | .acquire _ next, s => next.run s
  | .release _ next, s => next.run s
  | .look next, s => (next s).run s
  | .modify f next, s => next.run (f s)

/-- Run inside locks of the sites `held`, the innermost first, the program takes
each lock inside of such only as `inside` allows, and releases them all in turn. -/
def Nests (inside : κ → κ → Prop) : List κ → LockProg κ σ → Prop
  | held, .done => held = []
  | held, .acquire site next => (∀ h ∈ held, inside h site) ∧ next.Nests inside (site :: held)
  | held, .release site next => ∃ rest, held = site :: rest ∧ next.Nests inside rest
  | held, .look next => ∀ s, (next s).Nests inside held
  | held, .modify _ next => next.Nests inside held

end LockProg

/-- The threads, each with the rest of its program and the sites of the locks it
holds, and what they share. -/
structure LockState (ι κ σ : Type) where
  prog : ι → LockProg κ σ
  held : ι → List κ
  shared : σ

namespace LockState

/-- The threads are about to run their programs. -/
def start (prog : ι → LockProg κ σ) (shared : σ) : LockState ι κ σ := ⟨prog, fun _ => [], shared⟩

/-- The next step of the thread is to lock the mutex of the site. -/
def Waits (s : LockState ι κ σ) (i : ι) (site : κ) : Prop :=
  ∃ next, s.prog i = .acquire site next

/-- Some threads wait for each other: each for a mutex that one of them holds. -/
def Deadlocked (lock : κ → μ) (s : LockState ι κ σ) : Prop :=
  ∃ B : Set ι, B.Nonempty ∧ ∀ i ∈ B, ∃ site, s.Waits i site ∧
    ∃ j ∈ B, ∃ h ∈ s.held j, lock h = lock site

/-- Every thread nests its locks. -/
def AllNest (inside : κ → κ → Prop) (s : LockState ι κ σ) : Prop :=
  ∀ i, (s.prog i).Nests inside (s.held i)

variable {lock : κ → μ} {nested : κ → κ → Prop} {s : LockState ι κ σ} {i : ι} {site site' : κ}

theorem Waits.unique (h : s.Waits i site) (h' : s.Waits i site') : site = site' := by
  obtain ⟨next, hnext⟩ := h
  obtain ⟨next', hnext'⟩ := h'
  rw [hnext] at hnext'
  exact (LockProg.acquire.inj hnext').1

/-- A thread waits inside of locks that it may wait inside of. -/
theorem AllNest.inside (h : s.AllNest nested) (hwaits : s.Waits i site) {held : κ}
    (hheld : held ∈ s.held i) : nested held site := by
  obtain ⟨next, hnext⟩ := hwaits
  have hi := h i
  rw [hnext] at hi
  exact hi.1 held hheld

theorem allNest_start {prog : ι → LockProg κ σ} (h : ∀ i, (prog i).Nests nested []) (shared : σ) :
    (start prog shared).AllNest nested := h

/-- **Ranked mutexes**: if every thread waits for a mutex of a higher rank than
those it holds, no threads wait for each other. -/
theorem not_deadlocked_of_rank (rank : μ → Nat) (bound : Nat) (hbound : ∀ l, rank l < bound)
    (h : ∀ i site, s.Waits i site → ∀ held ∈ s.held i, rank (lock held) < rank (lock site)) :
    ¬ s.Deadlocked lock := by
  rintro ⟨B, hB, hblocked⟩
  -- somebody in the set waits for a mutex of any rank, however high
  have climb (n : Nat) : ∃ i ∈ B, ∃ site, s.Waits i site ∧ n ≤ rank (lock site) := by
    induction n with
    | zero =>
      obtain ⟨i, hi⟩ := hB
      obtain ⟨site, hwaits, -⟩ := hblocked i hi
      exact ⟨i, hi, site, hwaits, Nat.zero_le _⟩
    | succ n ih =>
      obtain ⟨i, hi, site, hwaits, hn⟩ := ih
      obtain ⟨site₁, hwaits₁, j, hj, held, hheld, hlock⟩ := hblocked i hi
      obtain rfl := hwaits.unique hwaits₁
      obtain ⟨site₂, hwaits₂, -⟩ := hblocked j hj
      have hlt := h j site₂ hwaits₂ held hheld
      rw [hlock] at hlt
      exact ⟨j, hj, site₂, hwaits₂, by omega⟩
  obtain ⟨i, -, site, -, hn⟩ := climb bound
  exact absurd (hbound (lock site)) (by omega)

end LockState

/-! ## Steps -/

variable [DecidableEq ι]

/-- A step of the thread `i`; it releases the lock that it has taken last. -/
inductive LockStep (lock : κ → μ) (i : ι) : LockState ι κ σ → LockState ι κ σ → Prop
  | acquire {s : LockState ι κ σ} {site : κ} {next : LockProg κ σ} :
      s.prog i = .acquire site next → (∀ j, ∀ h ∈ s.held j, lock h ≠ lock site) →
      LockStep lock i s
        ⟨Function.update s.prog i next, Function.update s.held i (site :: s.held i), s.shared⟩
  | release {s : LockState ι κ σ} {site : κ} {next : LockProg κ σ} {rest : List κ} :
      s.prog i = .release site next → s.held i = site :: rest →
      LockStep lock i s
        ⟨Function.update s.prog i next, Function.update s.held i rest, s.shared⟩
  | look {s : LockState ι κ σ} {next : σ → LockProg κ σ} : s.prog i = .look next →
      LockStep lock i s ⟨Function.update s.prog i (next s.shared), s.held, s.shared⟩
  | modify {s : LockState ι κ σ} {f : σ → σ} {next : LockProg κ σ} :
      s.prog i = .modify f next →
      LockStep lock i s ⟨Function.update s.prog i next, s.held, f s.shared⟩

/-- A step of any thread. -/
def SomeLockStep (lock : κ → μ) (s s' : LockState ι κ σ) : Prop := ∃ i, LockStep lock i s s'

namespace LockStep

variable {lock : κ → μ} {nested : κ → κ → Prop} {s s' : LockState ι κ σ} {i j : ι}

/-- A step leaves the other threads where they are. -/
theorem frame (h : LockStep lock i s s') (hj : j ≠ i) :
    s'.prog j = s.prog j ∧ s'.held j = s.held j := by
  cases h with
  | acquire => exact ⟨Function.update_of_ne hj _ _, Function.update_of_ne hj _ _⟩
  | release => exact ⟨Function.update_of_ne hj _ _, Function.update_of_ne hj _ _⟩
  | look => exact ⟨Function.update_of_ne hj _ _, rfl⟩
  | modify => exact ⟨Function.update_of_ne hj _ _, rfl⟩

/-- **Threads that nest their locks go on doing so.** -/
theorem allNest (h : LockStep lock i s s') (hs : s.AllNest nested) : s'.AllNest nested := by
  intro j
  by_cases hj : j = i
  · subst hj
    have hi := hs j
    cases h with
    | acquire hprog =>
      rw [hprog] at hi
      simpa using hi.2
    | release hprog hheld =>
      rw [hprog, hheld] at hi
      obtain ⟨rest, hrest, hnext⟩ := hi
      obtain rfl := (List.cons.inj hrest).2
      simpa using hnext
    | look hprog =>
      rw [hprog] at hi
      simpa using hi s.shared
    | @modify _ next hprog =>
      rw [hprog] at hi
      have hnext : next.Nests nested (s.held j) := hi
      simpa using hnext
  · rw [(h.frame hj).1, (h.frame hj).2]
    exact hs j

end LockStep

end Lib
