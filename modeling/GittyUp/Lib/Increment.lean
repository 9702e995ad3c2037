import Mathlib.Data.Fintype.Card
import Mathlib.Logic.Function.Basic

/-!
# Incrementing a register by reading and writing it

Threads increment one register, each with two atomic steps: read it, write back
the value read plus one. `value_eq_iff_paired`: the register has gained one for
every thread exactly when each write directly followed its read.
-/

namespace Lib

variable {ι : Type}

/-- What a thread has done so far. -/
inductive IncrementPhase where
  | idle
  | holding (n : Nat)
  | done
  deriving DecidableEq

/-- The register, and where every thread stands. -/
structure Increment (ι : Type) where
  value : Nat
  phase : ι → IncrementPhase

/-- Every thread's read is directly followed by its write. -/
inductive Paired : List ι → Prop
  | nil : Paired []
  | cons (i : ι) {schedule : List ι} : Paired schedule → Paired (i :: i :: schedule)

namespace Increment

section Steps

variable [DecidableEq ι]

/-- The thread `i` enters the phase `p`, the register then being `v`. -/
def enter (s : Increment ι) (v : Nat) (i : ι) (p : IncrementPhase) : Increment ι :=
  ⟨v, Function.update s.phase i p⟩

@[simp] theorem enter_value (s : Increment ι) (v : Nat) (i : ι) (p : IncrementPhase) :
    (s.enter v i p).value = v := rfl

@[simp] theorem enter_phase_self (s : Increment ι) (v : Nat) (i : ι) (p : IncrementPhase) :
    (s.enter v i p).phase i = p := by
  simp [enter]

theorem enter_phase_of_ne (s : Increment ι) (v : Nat) {i j : ι} (p : IncrementPhase) (h : j ≠ i) :
    (s.enter v i p).phase j = s.phase j := by
  simp [enter, h]

/-- The next step of the thread `i`, if it has one. -/
def step (s : Increment ι) (i : ι) : Option (Increment ι) :=
  match s.phase i with
  | .idle => some (s.enter s.value i (.holding s.value))
  | .holding n => some (s.enter (n + 1) i .done)
  | .done => none

/-- The step of a thread that has not begun is a read. -/
theorem step_of_idle {s s' : Increment ι} {i : ι} (hidle : ∀ n, s.phase i ≠ .holding n)
    (hstep : s.step i = some s') :
    s.phase i = .idle ∧ s' = s.enter s.value i (.holding s.value) := by
  unfold Increment.step at hstep
  split at hstep
  · next hi => exact ⟨hi, (Option.some.inj hstep).symm⟩
  · next n hi => exact (hidle n hi).elim
  · contradiction

/-- Run a schedule: the threads that take the steps, in order. -/
def run : Increment ι → List ι → Option (Increment ι)
  | s, [] => some s
  | s, i :: schedule => (s.step i).bind fun s' => run s' schedule

theorem run_concat (s : Increment ι) (schedule : List ι) (i : ι) :
    s.run (schedule ++ [i]) = (s.run schedule).bind fun s' => s'.step i := by
  induction schedule generalizing s with
  | nil => simp [run]
  | cons j schedule ih => simp [run, ih, Option.bind_assoc]

/-- No thread has taken a step. -/
def start (ι : Type) (v : Nat) : Increment ι := ⟨v, fun _ => .idle⟩

variable [Fintype ι]

/-- The number of threads that are done. -/
def finished (s : Increment ι) : Nat := (Finset.univ.filter fun i => s.phase i = .done).card

omit [DecidableEq ι] in
theorem finished_of_done {s : Increment ι} (h : ∀ i, s.phase i = .done) :
    s.finished = Fintype.card ι := by
  rw [finished, Finset.filter_true_of_mem fun i _ => h i, Finset.card_univ]

omit [DecidableEq ι] in
/-- While a thread is not done, fewer are finished than there are. -/
theorem finished_lt {s : Increment ι} {i : ι} (h : s.phase i ≠ .done) :
    s.finished < Fintype.card ι := by
  rw [finished, ← Finset.card_univ]
  exact Finset.card_lt_card (Finset.filter_ssubset.mpr ⟨i, Finset.mem_univ i, h⟩)

/-- A read leaves the number of finished threads. -/
theorem finished_read {s : Increment ι} {i : ι} (h : s.phase i = .idle) (v n : Nat) :
    (s.enter v i (.holding n)).finished = s.finished := by
  unfold finished
  congr 1
  refine Finset.filter_congr fun j _ => ?_
  by_cases hj : j = i
  · simp [hj, h]
  · rw [enter_phase_of_ne s v _ hj]

/-- A write finishes one more thread. -/
theorem finished_write {s : Increment ι} {i : ι} {m : Nat} (h : s.phase i = .holding m) (v : Nat) :
    (s.enter v i .done).finished = s.finished + 1 := by
  unfold finished
  rw [← Finset.card_insert_of_notMem (a := i) (by simp [h])]
  congr 1
  ext j
  by_cases hj : j = i
  · simp [hj]
  · simp [enter_phase_of_ne s v _ hj, hj]

end Steps

section Exactness

variable [Fintype ι] (v : Nat)

/-- The register never runs ahead of the finished threads, nor does a value
that a thread holds; one that is up to date is the register's. -/
structure Sound (s : Increment ι) : Prop where
  value : s.value ≤ v + s.finished
  held : ∀ i n, s.phase i = .holding n →
    n ≤ v + s.finished ∧ (n = v + s.finished → s.value = v + s.finished)

/-- Some increment is lost or bound to be: the register is behind, or a thread
holds a value that is behind, or two threads hold values. -/
def Doomed (s : Increment ι) : Prop :=
  s.value < v + s.finished ∨ (∃ i n, s.phase i = .holding n ∧ n < v + s.finished) ∨
    ∃ i j n m, i ≠ j ∧ s.phase i = .holding n ∧ s.phase j = .holding m

variable {v}

theorem Sound.start : Sound v (start ι v) := ⟨Nat.le_add_right v _, by simp [Increment.start]⟩

/-- A thread that has not written holds, or will read, a value below the total. -/
theorem Sound.value_lt {s : Increment ι} (h : Sound v s) {i : ι} (hi : s.phase i ≠ .done) :
    s.value < v + Fintype.card ι := by
  have hfinished := finished_lt hi
  have hvalue := h.value
  omega

variable [DecidableEq ι]

theorem Sound.step {s s' : Increment ι} {i : ι} (h : Sound v s) (hstep : s.step i = some s') :
    Sound v s' := by
  unfold Increment.step at hstep
  split at hstep
  · next hi =>
    obtain rfl := Option.some.inj hstep
    refine ⟨by rw [finished_read hi]; exact h.value, fun j n hj => ?_⟩
    rw [finished_read hi]
    by_cases hji : j = i
    · rw [hji, enter_phase_self] at hj
      obtain rfl := IncrementPhase.holding.inj hj
      exact ⟨h.value, id⟩
    · rw [enter_phase_of_ne _ _ _ hji] at hj
      exact h.held j n hj
  · next m hi =>
    obtain rfl := Option.some.inj hstep
    have hm := (h.held i m hi).1
    refine ⟨by rw [finished_write hi, enter_value]; omega, fun j n hj => ?_⟩
    rw [finished_write hi]
    by_cases hji : j = i
    · rw [hji, enter_phase_self] at hj
      contradiction
    · rw [enter_phase_of_ne _ _ _ hji] at hj
      have hn := (h.held j n hj).1
      -- what another thread holds is behind after the write
      exact ⟨by omega, fun heq => by omega⟩
  · contradiction

theorem Doomed.step {s s' : Increment ι} {i : ι} (h : Doomed v s) (hs : Sound v s)
    (hstep : s.step i = some s') : Doomed v s' := by
  unfold Increment.step at hstep
  split at hstep
  · next hi =>
    obtain rfl := Option.some.inj hstep
    have keep : ∀ {j n}, s.phase j = .holding n →
        (s.enter s.value i (.holding s.value)).phase j = .holding n := by
      intro j n hj
      have hji : j ≠ i := by
        rintro rfl
        rw [hi] at hj
        contradiction
      rw [enter_phase_of_ne _ _ _ hji, hj]
    rcases h with hv | ⟨j, n, hj, hn⟩ | ⟨j, l, n, m, hjl, hj, hl⟩
    · exact .inl (by rw [finished_read hi]; exact hv)
    · exact .inr (.inl ⟨j, n, keep hj, by rw [finished_read hi]; exact hn⟩)
    · exact .inr (.inr ⟨j, l, n, m, hjl, keep hj, keep hl⟩)
  · next p hi =>
    obtain rfl := Option.some.inj hstep
    have hp := hs.held i p hi
    -- a value that another thread holds is behind after the write
    have behind : ∀ j n, j ≠ i → s.phase j = .holding n → Doomed v (s.enter (p + 1) i .done) := by
      intro j n hji hj
      refine .inr (.inl ⟨j, n, by rw [enter_phase_of_ne _ _ _ hji, hj], ?_⟩)
      have hn := (hs.held j n hj).1
      rw [finished_write hi]
      omega
    -- so is the register when the value written back was
    have late : p < v + s.finished → Doomed v (s.enter (p + 1) i .done) := by
      intro hlt
      refine .inl ?_
      rw [finished_write hi, enter_value]
      omega
    rcases h with hv | ⟨j, n, hj, hn⟩ | ⟨j, l, n, m, hjl, hj, hl⟩
    · refine late ?_
      omega
    · by_cases hji : j = i
      · subst hji
        obtain rfl := IncrementPhase.holding.inj (hi.symm.trans hj)
        exact late hn
      · exact behind j n hji hj
    · by_cases hji : j = i
      · exact behind l m (fun hl => hjl (hji.trans hl.symm)) hl
      · exact behind j n hji hj
  · contradiction

/-- A doomed run ends behind, whatever is done in the rest of it. -/
theorem Doomed.run {schedule : List ι} {s s' : Increment ι} (h : Doomed v s) (hs : Sound v s)
    (hrun : s.run schedule = some s') (hdone : ∀ i, s'.phase i = .done) :
    s'.value < v + Fintype.card ι := by
  induction schedule generalizing s with
  | nil =>
    obtain rfl := Option.some.inj hrun
    rcases h with hv | ⟨i, n, hi, -⟩ | ⟨i, j, n, m, -, hi, -⟩
    · rwa [finished_of_done hdone] at hv
    · simp [hdone i] at hi
    · simp [hdone i] at hi
  | cons i schedule ih =>
    obtain ⟨s₁, hstep, hrun⟩ := Option.bind_eq_some_iff.mp hrun
    exact ih (h.step hs hstep) (hs.step hstep) hrun

/-- From a state in which no increment is under way and none is lost, exactly
the paired schedules lose none. -/
theorem value_eq_iff_paired_from {schedule : List ι} {s s' : Increment ι}
    (hs : Sound v s) (hidle : ∀ i n, s.phase i ≠ .holding n) (hv : s.value = v + s.finished)
    (hrun : s.run schedule = some s') (hdone : ∀ i, s'.phase i = .done) :
    s'.value = v + Fintype.card ι ↔ Paired schedule := by
  match schedule with
  | [] =>
    obtain rfl := Option.some.inj hrun
    rw [hv, finished_of_done hdone]
    exact iff_of_true rfl .nil
  | [i] =>
    -- the single step is a read, whose write is missing
    obtain ⟨s₁, hstep, hrun₁⟩ := Option.bind_eq_some_iff.mp hrun
    obtain rfl := Option.some.inj hrun₁
    have hheld := hdone i
    rw [(step_of_idle (hidle i) hstep).2, enter_phase_self] at hheld
    contradiction
  | i :: j :: schedule =>
    obtain ⟨s₁, hstep, hrun₁⟩ := Option.bind_eq_some_iff.mp hrun
    obtain ⟨s₂, hstep₂, hrun₂⟩ := Option.bind_eq_some_iff.mp hrun₁
    have hs₁ := hs.step hstep
    have hs₂ := hs₁.step hstep₂
    obtain ⟨hi, heq₁⟩ := step_of_idle (hidle i) hstep
    have hheld : s₁.phase i = .holding s.value := by rw [heq₁, enter_phase_self]
    by_cases hij : j = i
    · -- the write follows: one increment more, and nothing under way
      subst hij
      have heq₂ : s₂ = s₁.enter (s.value + 1) j .done := by
        unfold Increment.step at hstep₂
        rw [hheld] at hstep₂
        exact (Option.some.inj hstep₂).symm
      have hidle₂ : ∀ l n, s₂.phase l ≠ .holding n := by
        intro l n
        by_cases hl : l = j
        · rw [hl, heq₂, enter_phase_self]
          simp
        · rw [heq₂, enter_phase_of_ne _ _ _ hl, heq₁, enter_phase_of_ne _ _ _ hl]
          exact hidle l n
      have hv₂ : s₂.value = v + s₂.finished := by
        rw [heq₂, finished_write hheld, enter_value, heq₁, finished_read hi]
        omega
      rw [value_eq_iff_paired_from hs₂ hidle₂ hv₂ hrun₂ hdone]
      exact ⟨.cons j, fun h => by cases h; assumption⟩
    · -- another thread reads as well: an increment will be lost
      have hidle₁ : ∀ n, s₁.phase j ≠ .holding n := by
        rw [heq₁, enter_phase_of_ne _ _ _ hij]
        exact hidle j
      obtain ⟨-, heq₂⟩ := step_of_idle hidle₁ hstep₂
      have hdoomed : Doomed v s₂ := by
        refine .inr (.inr ⟨i, j, s.value, s₁.value, fun h => hij h.symm, ?_, ?_⟩)
        · rw [heq₂, enter_phase_of_ne _ _ _ (Ne.symm hij), hheld]
        · rw [heq₂, enter_phase_self]
      have hlt := hdoomed.run hs₂ hrun₂ hdone
      refine iff_of_false (by omega) ?_
      intro h
      cases h
      exact hij rfl
termination_by schedule.length

/-- **Exactly the paired schedules count every increment.** -/
theorem value_eq_iff_paired {schedule : List ι} {s : Increment ι}
    (hrun : (start ι v).run schedule = some s) (hdone : ∀ i, s.phase i = .done) :
    s.value = v + Fintype.card ι ↔ Paired schedule := by
  refine value_eq_iff_paired_from .start (by simp [start]) ?_ hrun hdone
  simp [finished, start]

end Exactness

end Increment

end Lib
