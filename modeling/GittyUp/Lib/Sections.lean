import GittyUp.Lib.Locks
import Mathlib.Data.Fintype.Basic

/-!
# Critical sections are atomic

Shared state falls into components, each guarded by a mutex: it is changed by
threads only that hold the mutex. Between locking and unlocking a mutex a thread
performs an action on its component, or none. `Performs` is how a program is seen
to do that, with the actions that it performs in turn.

`serialized_of_reachable`: whatever the interleaving, there is one history of
actions, in which the actions of each thread stand in its own order, such that
every component whose mutex is free is what the actions of the history, performed
one after another, make of it.
-/

namespace Lib

variable {κ μ σ ι ℓ : Type}

/-- Components of a state `σ`, one for each mutex, and actions on them: `same m`
says that two states have the same component of `m`. An action changes the
component of its mutex only, and looks at no other. -/
structure Guarding (μ σ ℓ : Type) where
  same : μ → σ → σ → Prop
  equivalence : ∀ m, Equivalence (same m)
  act : ℓ → σ → σ
  mutex : ℓ → μ
  act_other : ∀ a m s, m ≠ mutex a → same m (act a s) s
  act_same : ∀ a s s', same (mutex a) s s' → same (mutex a) (act a s) (act a s')

namespace Guarding

variable (G : Guarding μ σ ℓ)

/-- The actions of a history, one after another. -/
def replay (history : List (ι × ℓ)) (s : σ) : σ := history.foldl (fun s a => G.act a.2 s) s

/-- The mutexes that a thread holds: each with a state that had its component when
the mutex was locked, and one that has it now. -/
abbrev Entered (μ σ : Type) := μ → Option (σ × σ)

/-- A state has the components that a thread in its sections knows. -/
def Knows (entered : Entered μ σ) (s : σ) : Prop :=
  ∀ m before now, entered m = some (before, now) → G.same m s now

variable [DecidableEq μ]

/-- The program keeps `I`, changes components only while it holds their mutexes,
and performs the actions `todo`, one in a section at most. -/
def Performs (lock : κ → μ) (I : σ → Prop) : Entered μ σ → List ℓ → LockProg κ σ → Prop
  | entered, todo, .done => todo = [] ∧ ∀ m, entered m = none
  | entered, todo, .acquire site next =>
    ∀ s, I s → Performs lock I (Function.update entered (lock site) (some (s, s))) todo next
  | entered, todo, .release site next => ∃ before now, entered (lock site) = some (before, now) ∧
      (G.same (lock site) now before ∧
          Performs lock I (Function.update entered (lock site) none) todo next ∨
        ∃ a rest, todo = a :: rest ∧ G.mutex a = lock site ∧
          G.same (lock site) now (G.act a before) ∧
          Performs lock I (Function.update entered (lock site) none) rest next)
  | entered, todo, .look next =>
    ∀ s, I s → G.Knows entered s → Performs lock I entered todo (next s)
  | entered, todo, .modify f next => ∀ s, I s → G.Knows entered s →
      I (f s) ∧ (∀ m, entered m = none → G.same m (f s) s) ∧
        Performs lock I (fun m => (entered m).map fun e => (e.1, f s)) todo next

end Guarding

namespace LockState

variable [DecidableEq μ] [DecidableEq ι]

section Schedules

variable [Fintype ι]

instance : (p : LockProg κ σ) → Decidable (p = .done)
  | .done => isTrue rfl
  | .acquire _ _ | .release _ _ | .look _ | .modify _ _ => isFalse nofun

/-- The next step of the thread `i`, if it can take one. -/
def move [DecidableEq κ] (lock : κ → μ) (s : LockState ι κ σ) (i : ι) :
    Option (LockState ι κ σ) :=
  match s.prog i with
  | .done => none
  | .acquire site next =>
    if ∀ j, ∀ h ∈ s.held j, lock h ≠ lock site then
      some ⟨Function.update s.prog i next, Function.update s.held i (site :: s.held i), s.shared⟩
    else none
  | .release site next =>
    if s.held i = site :: (s.held i).tail then
      some ⟨Function.update s.prog i next, Function.update s.held i (s.held i).tail, s.shared⟩
    else none
  | .look next => some ⟨Function.update s.prog i (next s.shared), s.held, s.shared⟩
  | .modify f next => some ⟨Function.update s.prog i next, s.held, f s.shared⟩

theorem step_of_move [DecidableEq κ] {lock : κ → μ} {s s' : LockState ι κ σ} {i : ι}
    (h : s.move lock i = some s') : LockStep lock i s s' := by
  unfold move at h
  cases hprog : s.prog i with
  | done =>
    simp only [hprog] at h
    contradiction
  | acquire site next =>
    simp only [hprog] at h
    by_cases hfree : ∀ j, ∀ h ∈ s.held j, lock h ≠ lock site
    · rw [if_pos hfree] at h
      obtain rfl := Option.some.inj h
      exact .acquire hprog hfree
    · rw [if_neg hfree] at h
      contradiction
  | release site next =>
    simp only [hprog] at h
    by_cases hheld : s.held i = site :: (s.held i).tail
    · rw [if_pos hheld] at h
      obtain rfl := Option.some.inj h
      exact .release hprog hheld
    · rw [if_neg hheld] at h
      contradiction
  | look next =>
    simp only [hprog] at h
    obtain rfl := Option.some.inj h
    exact .look hprog
  | modify f next =>
    simp only [hprog] at h
    obtain rfl := Option.some.inj h
    exact .modify hprog

/-- A schedule that can be followed to its end reaches a state. -/
theorem reachable_of_schedule [DecidableEq κ] {lock : κ → μ} {schedule : List ι}
    {s s' : LockState ι κ σ} (h : schedule.foldlM (move lock) s = some s') :
    Reachable (SomeLockStep lock) s s' := by
  induction schedule generalizing s with
  | nil =>
    obtain rfl := Option.some.inj h
    exact .refl
  | cons i schedule ih =>
    rw [List.foldlM_cons] at h
    obtain ⟨mid, hmid, hrest⟩ := Option.bind_eq_some_iff.mp h
    exact .head ⟨i, step_of_move hmid⟩ (ih hrest)

end Schedules

/-- The actions of a thread in a history. -/
def actionsOf (history : List (ι × ℓ)) (i : ι) : List ℓ :=
  (history.filter (·.1 = i)).map Prod.snd

/-- The history so far, and where the threads are: `labels i` are the actions of
the thread `i`, of which `todo i` are left. -/
structure Serialized (G : Guarding μ σ ℓ) (lock : κ → μ) (I : σ → Prop) (s₀ : σ)
    (labels : ι → List ℓ) (s : LockState ι κ σ) (history : List (ι × ℓ))
    (entered : ι → Guarding.Entered μ σ) (todo : ι → List ℓ) : Prop where
  inv : I s.shared
  performs : ∀ i, G.Performs lock I (entered i) (todo i) (s.prog i)
  order : ∀ i, actionsOf history i ++ todo i = labels i
  holds : ∀ i m, entered i m ≠ none ↔ ∃ h ∈ s.held i, lock h = m
  nodup : ∀ i, ((s.held i).map lock).Nodup
  exclusive : ∀ i j m, entered i m ≠ none → entered j m ≠ none → i = j
  current : ∀ i m before now, entered i m = some (before, now) →
    G.same m s.shared now ∧ G.same m before (G.replay history s₀)
  free : ∀ m, (∀ i, entered i m = none) → G.same m s.shared (G.replay history s₀)

namespace Serialized

variable {G : Guarding μ σ ℓ} {lock : κ → μ} {I : σ → Prop} {s₀ : σ} {labels : ι → List ℓ}
  {s : LockState ι κ σ} {history : List (ι × ℓ)} {entered : ι → Guarding.Entered μ σ}
  {todo : ι → List ℓ} {i : ι} {site : κ} {next : LockProg κ σ}

/-- Every thread knows the components whose mutexes it holds. -/
theorem knows (h : Serialized G lock I s₀ labels s history entered todo) (i : ι) :
    G.Knows (entered i) s.shared :=
  fun m before now hm => (h.current i m before now hm).1

/-- A mutex that no thread has locked is entered by none. -/
theorem not_entered (h : Serialized G lock I s₀ labels s history entered todo)
    (hfree : ∀ j, ∀ h ∈ s.held j, lock h ≠ lock site) (j : ι) : entered j (lock site) = none := by
  by_contra hne
  obtain ⟨site', hsite', hlock⟩ := (h.holds j _).mp hne
  exact hfree j site' hsite' hlock

/-- Locking a mutex begins a section. -/
theorem acquired (h : Serialized G lock I s₀ labels s history entered todo)
    (hprog : s.prog i = .acquire site next) (hfree : ∀ j, ∀ h ∈ s.held j, lock h ≠ lock site) :
    Serialized G lock I s₀ labels
      ⟨Function.update s.prog i next, Function.update s.held i (site :: s.held i), s.shared⟩ history
      (Function.update entered i
        (Function.update (entered i) (lock site) (some (s.shared, s.shared)))) todo := by
  have hnone := h.not_entered hfree
  have hi := h.performs i
  rw [hprog] at hi
  constructor
  · exact h.inv
  · intro j
    by_cases hj : j = i
    · subst hj
      simpa using hi s.shared h.inv
    · simpa [hj] using h.performs j
  · exact h.order
  · intro j m
    by_cases hj : j = i
    · subst hj
      by_cases hm : m = lock site
      · simp [hm]
      · simp [hm, Ne.symm hm, h.holds j m]
    · simpa [hj] using h.holds j m
  · intro j
    by_cases hj : j = i
    · subst hj
      have hnew : lock site ∉ (s.held j).map lock := by
        rintro hmem
        obtain ⟨site', hsite', hlock⟩ := List.mem_map.mp hmem
        exact hfree j site' hsite' hlock
      simpa using ⟨by simpa using hnew, h.nodup j⟩
    · simpa [hj] using h.nodup j
  · intro j k m hj hk
    by_cases hm : m = lock site
    · subst hm
      -- nobody else has entered the new section
      have mine {l : ι} (hl : Function.update entered i (Function.update (entered i) (lock site)
          (some (s.shared, s.shared))) l (lock site) ≠ none) : l = i := by
        by_contra hne
        rw [Function.update_of_ne hne] at hl
        exact hl (hnone l)
      rw [mine hj, mine hk]
    · have before {l : ι} (hl : Function.update entered i (Function.update (entered i) (lock site)
          (some (s.shared, s.shared))) l m ≠ none) : entered l m ≠ none := by
        by_cases hli : l = i
        · subst hli
          simpa [hm] using hl
        · simpa [hli] using hl
      exact h.exclusive j k m (before hj) (before hk)
  · intro j m before now hj
    by_cases hji : j = i
    · subst hji
      by_cases hm : m = lock site
      · subst hm
        rw [Function.update_self, Function.update_self] at hj
        obtain ⟨rfl, rfl⟩ := Prod.mk.inj (Option.some.inj hj)
        exact ⟨(G.equivalence _).refl _, h.free _ hnone⟩
      · rw [Function.update_self, Function.update_of_ne hm] at hj
        exact h.current j m before now hj
    · rw [Function.update_of_ne hji] at hj
      exact h.current j m before now hj
  · intro m hm
    refine h.free m fun j => ?_
    have hj := hm j
    by_cases hji : j = i
    · subst hji
      by_cases hmsite : m = lock site
      · subst hmsite
        exact hnone j
      · simpa [hmsite] using hj
    · simpa [hji] using hj

/-- Looking at the shared state tells a thread in its sections no more than what
it knows. -/
theorem looked {next : σ → LockProg κ σ} (h : Serialized G lock I s₀ labels s history entered todo)
    (hprog : s.prog i = .look next) :
    Serialized G lock I s₀ labels
      ⟨Function.update s.prog i (next s.shared), s.held, s.shared⟩ history entered todo := by
  refine ⟨h.inv, fun j => ?_, h.order, h.holds, h.nodup, h.exclusive, h.current, h.free⟩
  by_cases hj : j = i
  · subst hj
    have hi := h.performs j
    rw [hprog] at hi
    simpa using hi s.shared h.inv (h.knows j)
  · simpa [hj] using h.performs j

/-- A thread changes the components only whose mutexes it holds. -/
theorem modified {f : σ → σ} (h : Serialized G lock I s₀ labels s history entered todo)
    (hprog : s.prog i = .modify f next) :
    Serialized G lock I s₀ labels ⟨Function.update s.prog i next, s.held, f s.shared⟩ history
      (Function.update entered i fun m => (entered i m).map fun e => (e.1, f s.shared)) todo := by
  have hi := h.performs i
  rw [hprog] at hi
  obtain ⟨hinv, hframe, hnext⟩ := hi s.shared h.inv (h.knows i)
  have hentered (j : ι) (m : μ) : Function.update entered i
      (fun m => (entered i m).map fun e => (e.1, f s.shared)) j m ≠ none ↔ entered j m ≠ none := by
    by_cases hj : j = i
    · subst hj
      simp
    · simp [hj]
  constructor
  · exact hinv
  · intro j
    by_cases hj : j = i
    · subst hj
      simpa using hnext
    · simpa [hj] using h.performs j
  · exact h.order
  · exact fun j m => (hentered j m).trans (h.holds j m)
  · exact h.nodup
  · exact fun j k m hj hk => h.exclusive j k m ((hentered j m).mp hj) ((hentered k m).mp hk)
  · intro j m before now hj
    by_cases hji : j = i
    · subst hji
      rw [Function.update_self] at hj
      obtain ⟨e, he, hpair⟩ := Option.map_eq_some_iff.mp hj
      obtain ⟨rfl, rfl⟩ := Prod.mk.inj hpair
      exact ⟨(G.equivalence m).refl _, (h.current j m e.1 e.2 he).2⟩
    · rw [Function.update_of_ne hji] at hj
      obtain ⟨hnow, hbefore⟩ := h.current j m before now hj
      -- the mutex is held by another thread, so its component does not change
      have hnone : entered i m = none := by
        by_contra hne
        exact hji (h.exclusive j i m (by simp [hj]) hne)
      exact ⟨(G.equivalence m).trans (hframe m hnone) hnow, hbefore⟩
  · intro m hm
    have hnone (j : ι) : entered j m = none := not_not.mp fun hne => (hentered j m).mpr hne (hm j)
    exact (G.equivalence m).trans (hframe m (hnone i)) (h.free m hnone)

/-- Unlocking a mutex ends a section, which may have added to the history. -/
theorem left {history' : List (ι × ℓ)} {rest : List ℓ} {sites : List κ}
    (h : Serialized G lock I s₀ labels s history entered todo) (hheld : s.held i = site :: sites)
    (hnext : G.Performs lock I (Function.update (entered i) (lock site) none) rest next)
    (horder : ∀ j, actionsOf history' j ++ Function.update todo i rest j = labels j)
    (hhere : G.same (lock site) s.shared (G.replay history' s₀))
    (hothers : ∀ m, m ≠ lock site → G.same m (G.replay history' s₀) (G.replay history s₀)) :
    Serialized G lock I s₀ labels
      ⟨Function.update s.prog i next, Function.update s.held i sites, s.shared⟩ history'
      (Function.update entered i (Function.update (entered i) (lock site) none))
      (Function.update todo i rest) := by
  have hnodup := h.nodup i
  rw [hheld, List.map_cons, List.nodup_cons] at hnodup
  have hmine : entered i (lock site) ≠ none :=
    (h.holds i _).mpr ⟨site, by rw [hheld]; exact List.mem_cons_self, rfl⟩
  -- what is still entered was entered before, and is of another mutex
  have still {j : ι} {m : μ} {e : σ × σ} (hj : Function.update entered i
      (Function.update (entered i) (lock site) none) j m = some e) :
      entered j m = some e ∧ m ≠ lock site := by
    by_cases hji : j = i
    · subst hji
      by_cases hm : m = lock site
      · simp [hm] at hj
      · exact ⟨by simpa [hm] using hj, hm⟩
    · rw [Function.update_of_ne hji] at hj
      refine ⟨hj, ?_⟩
      rintro rfl
      exact hji (h.exclusive j i _ (by simp [hj]) hmine)
  constructor
  · exact h.inv
  · intro j
    by_cases hj : j = i
    · subst hj
      simpa using hnext
    · simpa [hj] using h.performs j
  · exact horder
  · intro j m
    by_cases hj : j = i
    · subst hj
      by_cases hm : m = lock site
      · subst hm
        have hnot : ¬ ∃ h ∈ sites, lock h = lock site := by
          rintro ⟨site', hsite', hlock⟩
          exact hnodup.1 (List.mem_map.mpr ⟨site', hsite', hlock⟩)
        simpa using hnot
      · have hold := h.holds j m
        rw [hheld] at hold
        simpa [hm, Ne.symm hm] using hold
    · simpa [hj] using h.holds j m
  · intro j
    by_cases hj : j = i
    · subst hj
      simpa using hnodup.2
    · simpa [hj] using h.nodup j
  · intro j k m hj hk
    obtain ⟨_, hj⟩ := Option.ne_none_iff_exists'.mp hj
    obtain ⟨_, hk⟩ := Option.ne_none_iff_exists'.mp hk
    exact h.exclusive j k m (by simp [(still hj).1]) (by simp [(still hk).1])
  · intro j m before now hj
    obtain ⟨hold, hm⟩ := still hj
    obtain ⟨hnow, hbefore⟩ := h.current j m before now hold
    exact ⟨hnow, (G.equivalence m).trans hbefore ((G.equivalence m).symm (hothers m hm))⟩
  · intro m hm
    by_cases hsite : m = lock site
    · subst hsite
      exact hhere
    · refine (G.equivalence m).trans (h.free m fun j => ?_) ((G.equivalence m).symm (hothers m hsite))
      have hj := hm j
      by_cases hji : j = i
      · subst hji
        simpa [hsite] using hj
      · simpa [hji] using hj

/-- The section that ends has performed an action or none. -/
theorem released {sites : List κ} (h : Serialized G lock I s₀ labels s history entered todo)
    (hprog : s.prog i = .release site next) (hheld : s.held i = site :: sites) :
    ∃ history' entered' todo', Serialized G lock I s₀ labels
      ⟨Function.update s.prog i next, Function.update s.held i sites, s.shared⟩ history'
      entered' todo' := by
  have hi := h.performs i
  rw [hprog] at hi
  obtain ⟨before, now, he, hsection⟩ := hi
  obtain ⟨hnow, hbefore⟩ := h.current i _ before now he
  have E := G.equivalence (lock site)
  rcases hsection with ⟨hsame, hnext⟩ | ⟨a, rest, htodo, hmutex, hsame, hnext⟩
  · refine ⟨history, _, _, h.left hheld hnext (fun j => ?_) ?_ fun m _ => (G.equivalence m).refl _⟩
    · rw [Function.update_eq_self]
      exact h.order j
    · exact E.trans hnow (E.trans hsame hbefore)
  · have hreplay : G.replay (history ++ [(i, a)]) s₀ = G.act a (G.replay history s₀) := by
      simp [Guarding.replay]
    refine ⟨history ++ [(i, a)], _, _, h.left hheld hnext (fun j => ?_) ?_ fun m hm => ?_⟩
    · rw [actionsOf, List.filter_append, List.map_append, ← h.order j, List.append_assoc]
      by_cases hj : j = i
      · subst hj
        simp [htodo, actionsOf]
      · simp [hj, Ne.symm hj, actionsOf]
    · rw [hreplay]
      refine E.trans hnow (E.trans hsame ?_)
      rw [← hmutex] at hbefore ⊢
      exact G.act_same a _ _ hbefore
    · rw [hreplay]
      exact G.act_other a m _ (hmutex ▸ hm)

/-- **One step.** -/
theorem step {s' : LockState ι κ σ} (h : Serialized G lock I s₀ labels s history entered todo)
    (hstep : LockStep lock i s s') :
    ∃ history' entered' todo', Serialized G lock I s₀ labels s' history' entered' todo' := by
  cases hstep with
  | acquire hprog hfree => exact ⟨_, _, _, h.acquired hprog hfree⟩
  | release hprog hheld => exact h.released hprog hheld
  | look hprog => exact ⟨_, _, _, h.looked hprog⟩
  | modify hprog => exact ⟨_, _, _, h.modified hprog⟩

end Serialized

section Runs

variable {G : Guarding μ σ ℓ} {lock : κ → μ} {I : σ → Prop} {prog : ι → LockProg κ σ} {s₀ : σ}
  {labels : ι → List ℓ} {s : LockState ι κ σ}

/-- **Every run has a history.** -/
theorem serialized_of_reachable (hinv : I s₀)
    (hprog : ∀ i, G.Performs lock I (fun _ => none) (labels i) (prog i))
    (h : Reachable (SomeLockStep lock) (start prog s₀) s) :
    ∃ history entered todo, Serialized G lock I s₀ labels s history entered todo := by
  refine h.invariant (P := fun s => ∃ history entered todo,
    Serialized G lock I s₀ labels s history entered todo) ?_ ?_
  · refine ⟨[], fun _ _ => none, labels, hinv, hprog, fun _ => rfl, fun i m => ?_, fun _ => ?_,
      fun _ _ _ h => absurd rfl h, fun _ _ _ _ h => (nomatch h),
      fun m _ => (G.equivalence m).refl _⟩
    · simp [start]
    · exact List.nodup_nil
  · rintro s s' ⟨history, entered, todo, hs⟩ ⟨i, hstep⟩
    exact hs.step hstep

/-- **Where a mutex is free**, its component is what the history makes of it; the
history has a beginning of what each thread is to do, and all of it when the
thread is done, which then holds nothing. -/
theorem exists_history (hinv : I s₀)
    (hprog : ∀ i, G.Performs lock I (fun _ => none) (labels i) (prog i))
    (h : Reachable (SomeLockStep lock) (start prog s₀) s) :
    I s.shared ∧ ∃ history : List (ι × ℓ), (∀ i, actionsOf history i <+: labels i) ∧
      (∀ i, s.prog i = .done → actionsOf history i = labels i ∧ s.held i = []) ∧
      ∀ m, (∀ i, ∀ h ∈ s.held i, lock h ≠ m) → G.same m s.shared (G.replay history s₀) := by
  obtain ⟨history, entered, todo, hs⟩ := serialized_of_reachable hinv hprog h
  refine ⟨hs.inv, history, fun i => ⟨todo i, hs.order i⟩, fun i hi => ?_, fun m hm => ?_⟩
  · have hdone := hs.performs i
    rw [hi] at hdone
    have horder := hs.order i
    rw [hdone.1, List.append_nil] at horder
    refine ⟨horder, List.eq_nil_iff_forall_not_mem.mpr fun site hsite => ?_⟩
    exact (hs.holds i (lock site)).mpr ⟨site, hsite, rfl⟩ (hdone.2 _)
  · refine hs.free m fun i => ?_
    by_contra hne
    obtain ⟨site, hsite, hlock⟩ := (hs.holds i m).mp hne
    exact hm i site hsite hlock

end Runs

end LockState

end Lib
