import GittyUp.Lib.Transition
import Mathlib.Algebra.BigOperators.Pi
import Mathlib.Logic.Function.Basic

/-!
# Asynchronous runtimes

A runtime has some threads and a list of outstanding operations. An idle thread
takes an operation that has completed and runs its callback, which creates,
accesses and destroys objects, asks the environment, changes what is shared, and
starts further operations. Threads are interleaved action by action.

- `Callback.Respects`: a callback accesses the objects that it owns only, and has
  given all of them away when it ends, by destroying them or by starting an
  operation that needs them. An object goes through phases; what may be done to
  it depends on the phase that it is in, and on what the callback has been told.
- `not_faulty`: if all callbacks do, no thread ever acts on an object that is
  destroyed or in the wrong phase, whatever the interleaving.
- `Owned`: every object that is alive belongs to one thread or to one operation.
- `known_of_reachable`: what the phase of an object tells about the answers that
  the environment has given.
- `ledger`: what the environment has answered is booked on the shared state, once
  and entirely, when no callback is running.
-/

namespace Lib

variable {ω φ ε τ σ ι Q M : Type} {R : Q → Type}

/-- The rest of a callback: objects `ω` with accesses `ε`, operations `τ`, shared
state `σ`, and questions `Q` to the environment. The objects of a kind are
numbered; the runtime picks the number of one that is created. -/
inductive Callback (ω ε τ σ : Type) {Q : Type} (R : Q → Type) : Type where
  | done
  | create (kind : Nat → ω) (next : Nat → Callback ω ε τ σ R)
  | access (o : ω) (e : ε) (next : Callback ω ε τ σ R)
  | destroy (o : ω) (next : Callback ω ε τ σ R)
  | post (op : τ) (next : Callback ω ε τ σ R)
  | ask (q : Q) (next : R q → Callback ω ε τ σ R)
  | atomic (f : σ → σ) (next : σ → Callback ω ε τ σ R)
  | terminate

/-- What may be done to objects: the phase in which they are created, the phase
that an access leads to, the phases in which they may be destroyed, and the
objects that an operation needs, with the phases in which it needs them. -/
structure Protocol (ω φ ε τ : Type) where
  born : φ
  advance : φ → ε → Option φ
  ends : φ → Bool
  needs : τ → ω → Option φ

/-- What callbacks rely on and are held to: the shared state is always as `sound`
says, a question that is `about` an object is asked by the owner of it, in that
phase, and an access is `duly` made, by the phase of the object and by the answers
that the callback has been given. -/
structure Discipline (ω φ ε σ : Type) {Q : Type} (R : Q → Type) where
  sound : σ → Prop
  about : Q → Option (ω × φ)
  duly : List (Σ q, R q) → ω → φ → ε → Prop

/-- The question was about the object. -/
def Discipline.concerns [DecidableEq ω] (D : Discipline ω φ ε σ R) (o : ω) (a : Σ q, R q) : Bool :=
  (D.about a.1).any fun x => x.1 = o

/-- One object, in the phase `p`. -/
def only [DecidableEq ω] (o : ω) (p : φ) : ω → Option φ :=
  Function.update (fun _ => none) o (some p)

@[simp] theorem only_self [DecidableEq ω] (o : ω) (p : φ) : only o p o = some p :=
  Function.update_self _ _ _

theorem only_of_ne [DecidableEq ω] {o o' : ω} (h : o' ≠ o) (p : φ) : only o p o' = none :=
  Function.update_of_ne h _ _

@[simp] theorem update_only [DecidableEq ω] (o : ω) (p p' : φ) :
    Function.update (only o p) o (some p') = only o p' :=
  Function.update_idem _ _ _

@[simp] theorem update_only_none [DecidableEq ω] (o : ω) (p : φ) :
    Function.update (only o p) o none = fun _ => none := by
  rw [only, Function.update_idem, Function.update_eq_self]

/-- The threads with what they have left to do, the outstanding operations, the
objects that are alive with their phases, the shared state, and all questions
asked so far with their answers. A runtime that is not `up` has ended. -/
structure ReactorState (ι ω φ ε τ σ : Type) {Q : Type} (R : Q → Type) where
  running : ι → Callback ω ε τ σ R
  pending : List τ
  objects : ω → Option φ
  shared : σ
  asked : List (Σ q, R q)
  up : Bool

namespace Callback

instance : (cb : Callback ω ε τ σ R) → Decidable (cb = .done)
  | .done => isTrue rfl
  | .create _ _ | .access _ _ _ | .destroy _ _ | .post _ _ | .ask _ _ | .atomic _ _ | .terminate =>
    isFalse nofun

/-- The next action of the callback is an error: it accesses or destroys an
object that is not alive, or in a way that the object's phase does not allow, or
starts an operation whose objects are not ready. -/
def Faults (P : Protocol ω φ ε τ) (objects : ω → Option φ) : Callback ω ε τ σ R → Prop
  | .access o e _ => (objects o).bind (P.advance · e) = none
  | .destroy o _ => (objects o).any P.ends = false
  | .post op _ => ∃ o p, P.needs op o = some p ∧ objects o ≠ some p
  | _ => False

variable [DecidableEq ω]

/-- The callback, which has been `told` some answers and owns the objects `held`
in their phases, does nothing but what these allow, and ends owning none. -/
def Respects (P : Protocol ω φ ε τ) (D : Discipline ω φ ε σ R) :
    List (Σ q, R q) → (ω → Option φ) → Callback ω ε τ σ R → Prop
  | _, held, .done => ∀ o, held o = none
  -- what it was told about an object of that number was about an earlier one
  | told, held, .create kind next => ∀ n, held (kind n) = none →
      (next n).Respects P D (told.filter fun a => !D.concerns (kind n) a)
        (Function.update held (kind n) (some P.born))
  | told, held, .access o e next => ∃ p p', held o = some p ∧ D.duly told o p e ∧
      P.advance p e = some p' ∧ next.Respects P D told (Function.update held o (some p'))
  | told, held, .destroy o next => (held o).any P.ends = true ∧
      next.Respects P D told (Function.update held o none)
  | told, held, .post op next => (∀ o p, P.needs op o = some p → held o = some p) ∧
      next.Respects P D told fun o => if P.needs op o = none then held o else none
  | told, held, .ask q next => (∀ o p, D.about q = some (o, p) → held o = some p) ∧
      ∀ r, (next r).Respects P D (told ++ [⟨q, r⟩]) held
  | told, held, .atomic f next => ∀ s, D.sound s →
      D.sound (f s) ∧ (next s).Respects P D told held
  | _, _, .terminate => True

/-- It does so by answers that were given, and those about its objects are the last
about them. -/
def Follows (P : Protocol ω φ ε τ) (D : Discipline ω φ ε σ R) (asked : List (Σ q, R q))
    (held : ω → Option φ) (cb : Callback ω ε τ σ R) : Prop :=
  ∃ told, told ⊆ asked ∧
    (∀ o, held o ≠ none → told.filter (D.concerns o) <:+ asked.filter (D.concerns o)) ∧
    cb.Respects P D told held

section Rules

variable {P : Protocol ω φ ε τ} {D : Discipline ω φ ε σ R} {told : List (Σ q, R q)}
  {held : ω → Option φ} {o : ω} {p p' : φ} {e : ε} {op : τ} {next : Callback ω ε τ σ R}

theorem respects_access (ho : held o = some p) (hduly : D.duly told o p e)
    (hp : P.advance p e = some p')
    (hnext : next.Respects P D told (Function.update held o (some p'))) :
    (Callback.access o e next).Respects P D told held :=
  ⟨p, p', ho, hduly, hp, hnext⟩

theorem respects_destroy (ho : held o = some p) (hp : P.ends p = true)
    (hnext : next.Respects P D told (Function.update held o none)) :
    (Callback.destroy o next).Respects P D told held :=
  ⟨by rw [ho, Option.any_some, hp], hnext⟩

theorem respects_ask {q : Q} {next : R q → Callback ω ε τ σ R} (hq : D.about q = none)
    (hnext : ∀ r, (next r).Respects P D (told ++ [⟨q, r⟩]) held) :
    (Callback.ask q next).Respects P D told held := by
  refine ⟨fun o p h => ?_, hnext⟩
  rw [hq] at h
  contradiction

/-- An operation that needs one object takes this away. -/
theorem respects_post (hneeds : P.needs op = only o p) (ho : held o = some p)
    (hnext : next.Respects P D told (Function.update held o none)) :
    (Callback.post op next).Respects P D told held := by
  constructor
  · intro o' p' ho'
    rw [hneeds, only, Function.update_apply] at ho'
    split_ifs at ho' with heq
    rw [heq, ho, ho']
  · convert hnext using 1
    funext o'
    by_cases heq : o' = o
    · simp [hneeds, only, heq]
    · simp [hneeds, only, heq]

end Rules

/-- The callback books, on the part `view` of the shared state, all that `m` says
and what the environment's answers add to it. -/
def Owes [AddCommMonoid M] (credit : (q : Q) → R q → M) (view : σ → M) :
    M → Callback ω ε τ σ R → Prop
  | m, .done => m = 0
  | m, .create _ next => ∀ n, (next n).Owes credit view m
  | m, .access _ _ next => next.Owes credit view m
  | m, .destroy _ next => next.Owes credit view m
  | m, .post _ next => next.Owes credit view m
  | m, .ask q next => ∀ r, (next r).Owes credit view (m + credit q r)
  | m, .atomic f next => ∀ s, ∃ rest, view (f s) + rest = view s + m ∧
      (next s).Owes credit view rest
  | _, .terminate => True

/-- As long as the answers are `ok`, the callback keeps `I` of the shared state
and does not end the runtime; an answer that is not makes it do so. -/
def Safe (I : σ → Prop) (ok : (q : Q) → R q → Prop) : Callback ω ε τ σ R → Prop
  | .done => True
  | .create _ next => ∀ n, (next n).Safe I ok
  | .access _ _ next => next.Safe I ok
  | .destroy _ next => next.Safe I ok
  | .post _ next => next.Safe I ok
  | .ask q next => ∀ r, (ok q r → (next r).Safe I ok) ∧ (¬ ok q r → next r = .terminate)
  | .atomic f next => ∀ s, I s → I (f s) ∧ (next s).Safe I ok
  | .terminate => False

end Callback

namespace ReactorState

/-- Some thread is about to make an error. -/
def Faulty (P : Protocol ω φ ε τ) (s : ReactorState ι ω φ ε τ σ R) : Prop :=
  ∃ i, (s.running i).Faults P s.objects

/-- No thread runs a callback. -/
def Idle (s : ReactorState ι ω φ ε τ σ R) : Prop := ∀ i, s.running i = .done

instance [Fintype ι] (s : ReactorState ι ω φ ε τ σ R) : Decidable s.Idle :=
  inferInstanceAs (Decidable (∀ i, s.running i = .done))

variable [DecidableEq ι]

/-- The state with the thread `i` gone on to `cb`. -/
def resume (s : ReactorState ι ω φ ε τ σ R) (i : ι) (cb : Callback ω ε τ σ R) :
    ReactorState ι ω φ ε τ σ R :=
  { s with running := Function.update s.running i cb }

@[simp] theorem resume_running (s : ReactorState ι ω φ ε τ σ R) (i : ι)
    (cb : Callback ω ε τ σ R) : (s.resume i cb).running = Function.update s.running i cb := rfl

@[simp] theorem resume_objects (s : ReactorState ι ω φ ε τ σ R) (i : ι)
    (cb : Callback ω ε τ σ R) : (s.resume i cb).objects = s.objects := rfl

@[simp] theorem resume_shared (s : ReactorState ι ω φ ε τ σ R) (i : ι)
    (cb : Callback ω ε τ σ R) : (s.resume i cb).shared = s.shared := rfl

@[simp] theorem resume_asked (s : ReactorState ι ω φ ε τ σ R) (i : ι)
    (cb : Callback ω ε τ σ R) : (s.resume i cb).asked = s.asked := rfl

variable [DecidableEq ω]

/-- A step of the thread `i`. An object that is created gets any number that is
not in use for its kind, so the number of a destroyed object may come back. -/
inductive Step (P : Protocol ω φ ε τ) (handler : τ → Callback ω ε τ σ R) (i : ι) :
    ReactorState ι ω φ ε τ σ R → ReactorState ι ω φ ε τ σ R → Prop
  | complete {s : ReactorState ι ω φ ε τ σ R} {op : τ} {before after : List τ} : s.up = true →
      s.running i = .done → s.pending = before ++ op :: after →
      Step P handler i s { s.resume i (handler op) with pending := before ++ after }
  | create {s : ReactorState ι ω φ ε τ σ R} {kind : Nat → ω} {n : Nat}
      {next : Nat → Callback ω ε τ σ R} :
      s.up = true → s.running i = .create kind next → s.objects (kind n) = none →
      Step P handler i s
        { s.resume i (next n) with objects := Function.update s.objects (kind n) (some P.born) }
  | access {s : ReactorState ι ω φ ε τ σ R} {o : ω} {e : ε} {next : Callback ω ε τ σ R} {p : φ} :
      s.up = true → s.running i = .access o e next →
      (s.objects o).bind (P.advance · e) = some p →
      Step P handler i s { s.resume i next with objects := Function.update s.objects o (some p) }
  | destroy {s : ReactorState ι ω φ ε τ σ R} {o : ω} {next : Callback ω ε τ σ R} :
      s.up = true → s.running i = .destroy o next → (s.objects o).any P.ends = true →
      Step P handler i s { s.resume i next with objects := Function.update s.objects o none }
  | post {s : ReactorState ι ω φ ε τ σ R} {op : τ} {next : Callback ω ε τ σ R} :
      s.up = true → s.running i = .post op next →
      Step P handler i s { s.resume i next with pending := s.pending ++ [op] }
  | ask {s : ReactorState ι ω φ ε τ σ R} {q : Q} {next : R q → Callback ω ε τ σ R} (r : R q) :
      s.up = true → s.running i = .ask q next →
      Step P handler i s { s.resume i (next r) with asked := s.asked ++ [⟨q, r⟩] }
  | atomic {s : ReactorState ι ω φ ε τ σ R} {f : σ → σ} {next : σ → Callback ω ε τ σ R} :
      s.up = true → s.running i = .atomic f next →
      Step P handler i s { s.resume i (next s.shared) with shared := f s.shared }
  | terminate {s : ReactorState ι ω φ ε τ σ R} : s.up = true → s.running i = .terminate →
      Step P handler i s { s with up := false }

/-- A step of any thread. -/
def SomeStep (P : Protocol ω φ ε τ) (handler : τ → Callback ω ε τ σ R)
    (s s' : ReactorState ι ω φ ε τ σ R) : Prop :=
  ∃ i, Step P handler i s s'

/-! ## Schedules -/

/-- One step of a schedule: the thread that takes it and, where the step leaves a
choice, the position of the operation that completes, the number of the object
created, and the environment's answer. -/
structure Move (ι : Type) {Q : Type} (R : Q → Type) where
  thread : ι
  position : Nat
  number : Nat
  reply : (q : Q) → R q

/-- The state after the step, if the thread can take it. -/
def move (P : Protocol ω φ ε τ) (handler : τ → Callback ω ε τ σ R) (m : Move ι R)
    (s : ReactorState ι ω φ ε τ σ R) : Option (ReactorState ι ω φ ε τ σ R) :=
  if s.up then
    match s.running m.thread with
    | .done => s.pending[m.position]?.map fun op =>
        { s.resume m.thread (handler op) with
          pending := s.pending.take m.position ++ s.pending.drop (m.position + 1) }
    | .create kind next =>
      if (s.objects (kind m.number)).isNone then
        some { s.resume m.thread (next m.number) with
          objects := Function.update s.objects (kind m.number) (some P.born) }
      else none
    | .access o e next => ((s.objects o).bind (P.advance · e)).map fun p =>
        { s.resume m.thread next with objects := Function.update s.objects o (some p) }
    | .destroy o next =>
      if (s.objects o).any P.ends then
        some { s.resume m.thread next with objects := Function.update s.objects o none }
      else none
    | .post op next => some { s.resume m.thread next with pending := s.pending ++ [op] }
    | .ask q next => some { s.resume m.thread (next (m.reply q)) with
        asked := s.asked ++ [⟨q, m.reply q⟩] }
    | .atomic f next =>
      some { s.resume m.thread (next s.shared) with shared := f s.shared }
    | .terminate => some { s with up := false }
  else none

theorem step_of_move {P : Protocol ω φ ε τ} {handler : τ → Callback ω ε τ σ R} {m : Move ι R}
    {s s' : ReactorState ι ω φ ε τ σ R} (h : move P handler m s = some s') :
    Step P handler m.thread s s' := by
  unfold move at h
  by_cases hup : s.up = true
  · rw [if_pos hup] at h
    cases hrunning : s.running m.thread with
    | done =>
      simp only [hrunning] at h
      obtain ⟨op, hop, rfl⟩ := Option.map_eq_some_iff.mp h
      obtain ⟨hlt, rfl⟩ := List.getElem?_eq_some_iff.mp hop
      refine .complete hup hrunning ?_
      rw [← List.drop_eq_getElem_cons hlt, List.take_append_drop]
    | create kind next =>
      simp only [hrunning] at h
      split_ifs at h with hname
      obtain rfl := Option.some.inj h
      exact .create hup hrunning (Option.isNone_iff_eq_none.mp hname)
    | access o e next =>
      simp only [hrunning] at h
      obtain ⟨p, hp, rfl⟩ := Option.map_eq_some_iff.mp h
      exact .access hup hrunning hp
    | destroy o next =>
      simp only [hrunning] at h
      split_ifs at h with hends
      obtain rfl := Option.some.inj h
      exact .destroy hup hrunning hends
    | post op next =>
      simp only [hrunning] at h
      obtain rfl := Option.some.inj h
      exact .post hup hrunning
    | ask q next =>
      simp only [hrunning] at h
      obtain rfl := Option.some.inj h
      exact .ask (m.reply q) hup hrunning
    | atomic f next =>
      simp only [hrunning] at h
      obtain rfl := Option.some.inj h
      exact .atomic hup hrunning
    | terminate =>
      simp only [hrunning] at h
      obtain rfl := Option.some.inj h
      exact .terminate hup hrunning
  · rw [if_neg hup] at h
    contradiction

/-- A schedule that can be followed to its end reaches a state. -/
theorem reachable_of_moves {P : Protocol ω φ ε τ} {handler : τ → Callback ω ε τ σ R}
    {moves : List (Move ι R)} {s s' : ReactorState ι ω φ ε τ σ R}
    (h : moves.foldlM (fun s m => move P handler m s) s = some s') :
    Reachable (SomeStep P handler) s s' := by
  induction moves generalizing s with
  | nil =>
    obtain rfl := Option.some.inj h
    exact .refl
  | cons m moves ih =>
    rw [List.foldlM_cons] at h
    obtain ⟨mid, hmid, hrest⟩ := Option.bind_eq_some_iff.mp h
    exact .head ⟨m.thread, step_of_move hmid⟩ (ih hrest)

/-! ## Ownership -/

/-- Whom an object belongs to. -/
inductive Owner (ι : Type) where
  | nobody
  | thread (i : ι)
  | operation
  deriving DecidableEq

/-- What the thread `i` owns. -/
def held (objects : ω → Option φ) (owner : ω → Owner ι) (i : ι) (o : ω) : Option φ :=
  if owner o = .thread i then objects o else none

/-- The objects that are alive have owners: threads, which do what these allow,
and operations, which need them. -/
structure Owned (P : Protocol ω φ ε τ) (D : Discipline ω φ ε σ R)
    (s : ReactorState ι ω φ ε τ σ R) (owner : ω → Owner ι) : Prop where
  sound : D.sound s.shared
  follows : ∀ i, (s.running i).Follows P D s.asked (held s.objects owner i)
  nobody : ∀ o, owner o = .nobody ↔ s.objects o = none
  waits : ∀ op ∈ s.pending, ∀ o p, P.needs op o = some p →
    owner o = .operation ∧ s.objects o = some p
  needed : ∀ o, owner o = .operation → ∃ op ∈ s.pending, P.needs op o ≠ none
  exclusive : s.pending.Pairwise fun op op' => ∀ o, P.needs op o = none ∨ P.needs op' o = none

namespace Owned

variable {P : Protocol ω φ ε τ} {D : Discipline ω φ ε σ R} {s : ReactorState ι ω φ ε τ σ R}
  {owner : ω → Owner ι} {i : ι} {o : ω} {cb : Callback ω ε τ σ R}

/-- No operation needs an object of another owner. -/
theorem not_needed (h : Owned P D s owner) (ho : owner o ≠ .operation) :
    ∀ op ∈ s.pending, P.needs op o = none :=
  fun op hop => Option.eq_none_iff_forall_ne_some.mpr fun p hp => ho (h.waits op hop o p hp).1

/-- The shared state is no object. -/
theorem congr {s' : ReactorState ι ω φ ε τ σ R} (h : Owned P D s owner)
    (hrunning : s'.running = s.running) (hpending : s'.pending = s.pending)
    (hobjects : s'.objects = s.objects) (hsound : D.sound s'.shared)
    (hasked : s'.asked = s.asked) : Owned P D s' owner := by
  cases s
  cases s'
  subst hrunning hpending hobjects hasked
  exact ⟨hsound, h.follows, h.nobody, h.waits, h.needed, h.exclusive⟩

/-- One thread goes on with the callback `cb`, the others stay where they are. -/
theorem follows_resume {asked : List (Σ q, R q)} {owned : ι → ω → Option φ}
    (hcb : cb.Follows P D asked (owned i))
    (hothers : ∀ j, j ≠ i → (s.running j).Follows P D asked (owned j)) :
    ∀ j, ((s.resume i cb).running j).Follows P D asked (owned j) :=
  (Function.forall_update_iff s.running fun j cb => cb.Follows P D asked (owned j)).mpr
    ⟨hcb, hothers⟩

/-- A thread that goes on with the same objects. -/
theorem same (h : Owned P D s owner) (hcb : cb.Follows P D s.asked (held s.objects owner i)) :
    Owned P D (s.resume i cb) owner :=
  ⟨h.sound, follows_resume hcb fun j _ => h.follows j, h.nobody, h.waits, h.needed, h.exclusive⟩

/-- A thread that goes on with one object changed, which is its own or new. -/
theorem changed (h : Owned P D s owner) (ho : owner o = .nobody ∨ owner o = .thread i)
    {v : Option φ} (hcb : cb.Follows P D s.asked (Function.update (held s.objects owner i) o v)) :
    Owned P D { s.resume i cb with objects := Function.update s.objects o v }
      (Function.update owner o (if v = none then .nobody else .thread i)) := by
  have hop : owner o ≠ .operation := by
    rcases ho with ho | ho <;> simp [ho]
  constructor
  · exact h.sound
  · show ∀ j, ((s.resume i cb).running j).Follows P D s.asked _
    refine follows_resume ?_ fun j hj => ?_
    · convert hcb using 1
      funext o'
      by_cases ho' : o' = o
      · subst ho'
        cases v <;> simp [held]
      · simp [held, ho']
    · convert h.follows j using 1
      funext o'
      by_cases ho' : o' = o
      · subst ho'
        have hi : i ≠ j := Ne.symm hj
        rcases ho with ho | ho <;> cases v <;> simp [held, ho, hi]
      · simp [held, ho']
  · intro o'
    show _ ↔ Function.update s.objects o v o' = none
    by_cases ho' : o' = o
    · subst ho'
      cases v <;> simp
    · simp [ho', h.nobody]
  · intro op hmem o' p hp
    show _ ∧ Function.update s.objects o v o' = some p
    have ho' : o' ≠ o := by
      rintro rfl
      rw [h.not_needed hop op hmem] at hp
      contradiction
    rw [Function.update_of_ne ho', Function.update_of_ne ho']
    exact h.waits op hmem o' p hp
  · intro o' hneeded
    by_cases ho' : o' = o
    · subst ho'
      cases v <;> simp at hneeded
    · rw [Function.update_of_ne ho'] at hneeded
      exact h.needed o' hneeded
  · exact h.exclusive

/-- A thread that starts an operation hands over what this needs. -/
theorem posted (h : Owned P D s owner) {op : τ}
    (hready : ∀ o p, P.needs op o = some p → held s.objects owner i o = some p)
    (hcb : cb.Follows P D s.asked fun o =>
      if P.needs op o = none then held s.objects owner i o else none) :
    Owned P D { s.resume i cb with pending := s.pending ++ [op] }
      (fun o => if P.needs op o = none then owner o else .operation) := by
  -- what the operation needs was the thread's
  have mine {o : ω} (ho : P.needs op o ≠ none) : owner o = .thread i := by
    obtain ⟨p, hp⟩ := Option.ne_none_iff_exists'.mp ho
    have := hready o p hp
    unfold held at this
    split_ifs at this with howner
    exact howner
  constructor
  · exact h.sound
  · show ∀ j, ((s.resume i cb).running j).Follows P D s.asked _
    refine follows_resume ?_ fun j hj => ?_
    · convert hcb using 1
      funext o
      by_cases ho : P.needs op o = none <;> simp [held, ho]
    · convert h.follows j using 1
      funext o
      by_cases ho : P.needs op o = none
      · simp [held, ho]
      · have hi : i ≠ j := Ne.symm hj
        simp [held, ho, mine ho, hi]
  · intro o
    show _ ↔ s.objects o = none
    by_cases ho : P.needs op o = none
    · simp [ho, h.nobody]
    · have := h.nobody o
      rw [mine ho] at this
      simpa [ho] using this
  · intro op' hmem o p hp
    rcases List.mem_append.mp hmem with hmem | hmem
    · obtain ⟨howner, hobj⟩ := h.waits op' hmem o p hp
      refine ⟨?_, hobj⟩
      split_ifs with ho
      · exact howner
      · rfl
    · obtain rfl := List.mem_singleton.mp hmem
      have hheld := hready o p hp
      rw [held, if_pos (mine (by simp [hp]))] at hheld
      exact ⟨if_neg (by simp [hp]), hheld⟩
  · intro o ho
    by_cases hneeds : P.needs op o = none
    · rw [if_pos hneeds] at ho
      obtain ⟨op', hmem, hop'⟩ := h.needed o ho
      exact ⟨op', List.mem_append_left _ hmem, hop'⟩
    · exact ⟨op, List.mem_append_right _ (List.mem_singleton_self _), hneeds⟩
  · refine List.pairwise_append.mpr ⟨h.exclusive, List.pairwise_singleton _ _, ?_⟩
    intro op' hmem op'' hmem' o
    obtain rfl := List.mem_singleton.mp hmem'
    by_cases ho : P.needs op'' o = none
    · exact .inr ho
    · exact .inl (h.not_needed (by simp [mine ho]) op' hmem)

/-- An idle thread that runs the callback of an operation takes over what this
needed. -/
theorem completed (h : Owned P D s owner) {op : τ} {before after : List τ}
    (hidle : s.running i = .done) (hpending : s.pending = before ++ op :: after)
    (hcb : cb.Respects P D [] (P.needs op)) :
    Owned P D { s.resume i cb with pending := before ++ after }
      (fun o => if P.needs op o = none then owner o else .thread i) := by
  have hmem : op ∈ s.pending := by simp [hpending]
  -- what the operation needs was its own
  have mine {o : ω} (ho : P.needs op o ≠ none) :
      owner o = .operation ∧ s.objects o = P.needs op o := by
    obtain ⟨p, hp⟩ := Option.ne_none_iff_exists'.mp ho
    rw [hp]
    exact h.waits op hmem o p hp
  have hnothing (o : ω) : held s.objects owner i o = none := by
    obtain ⟨_, -, -, hi⟩ := h.follows i
    rw [hidle] at hi
    exact hi o
  have hperm : s.pending.Perm (op :: (before ++ after)) := hpending ▸ List.perm_middle
  have hexclusive := h.exclusive.perm hperm fun h o => (h o).symm
  obtain ⟨halone, hrest⟩ := List.pairwise_cons.mp hexclusive
  have hstill {op' : τ} (hop' : op' ∈ before ++ after) : op' ∈ s.pending :=
    hperm.mem_iff.mpr (List.mem_cons_of_mem _ hop')
  constructor
  · exact h.sound
  · show ∀ j, ((s.resume i cb).running j).Follows P D s.asked _
    refine follows_resume ?_ fun j hj => ?_
    · refine ⟨[], List.nil_subset _, fun _ _ => List.nil_suffix, ?_⟩
      convert hcb using 1
      funext o
      by_cases ho : P.needs op o = none
      · have := hnothing o
        simpa [held, ho] using this
      · simp [held, ho, (mine ho).2]
    · convert h.follows j using 1
      funext o
      by_cases ho : P.needs op o = none
      · simp [held, ho]
      · have hi : i ≠ j := Ne.symm hj
        simp [held, ho, (mine ho).1, hi]
  · intro o
    show _ ↔ s.objects o = none
    by_cases ho : P.needs op o = none
    · simp [ho, h.nobody]
    · simp [ho, (mine ho).2]
  · intro op' hop' o p hp
    have ho : P.needs op o = none := (halone op' hop' o).resolve_right (by simp [hp])
    simpa [ho] using h.waits op' (hstill hop') o p hp
  · intro o ho
    by_cases hneeds : P.needs op o = none
    · rw [if_pos hneeds] at ho
      obtain ⟨op', hop', hne⟩ := h.needed o ho
      rcases List.mem_cons.mp (hperm.mem_iff.mp hop') with rfl | hop'
      · exact absurd hneeds hne
      · exact ⟨op', hop', hne⟩
    · rw [if_neg hneeds] at ho
      contradiction
  · exact hrest

omit [DecidableEq ω] in
/-- What a thread owns is alive, in the phase that the thread takes it to be. -/
theorem held_eq_some {p : φ} (ho : held s.objects owner i o = some p) :
    owner o = .thread i ∧ s.objects o = some p := by
  unfold held at ho
  split_ifs at ho with howner
  exact ⟨howner, ho⟩

/-- A thread that has been answered. Questions about the objects of the others are
not its to ask. -/
theorem answered (h : Owned P D s owner) {q : Q} {r : R q}
    (hq : ∀ o p, D.about q = some (o, p) → held s.objects owner i o = some p)
    (hcb : cb.Follows P D (s.asked ++ [⟨q, r⟩]) (held s.objects owner i)) :
    Owned P D { s.resume i cb with asked := s.asked ++ [⟨q, r⟩] } owner := by
  refine ⟨h.sound, follows_resume hcb fun j hj => ?_, h.nobody, h.waits, h.needed, h.exclusive⟩
  obtain ⟨told, htold, hlast, hrest⟩ := h.follows j
  refine ⟨told, List.Subset.trans htold (List.subset_append_left _ _), fun o ho => ?_, hrest⟩
  have hother : D.concerns o ⟨q, r⟩ = false := by
    by_contra hconcerns
    obtain ⟨⟨o', p⟩, habout, ho'⟩ :=
      (Option.any_eq_true _ _).mp (Bool.not_eq_false _ ▸ hconcerns)
    obtain rfl : o' = o := of_decide_eq_true ho'
    obtain ⟨p', hp'⟩ := Option.ne_none_iff_exists'.mp ho
    have howner := (held_eq_some hp').1.symm.trans (held_eq_some (hq o' p habout)).1
    exact hj (Owner.thread.inj howner)
  rw [List.filter_append, List.filter_singleton, hother]
  simpa using hlast o ho

/-- What is said about an object that a callback goes on with, it was told about
before. -/
theorem latest_mono {told asked : List (Σ q, R q)} {before after : ω → Option φ}
    (hlast : ∀ o, before o ≠ none → told.filter (D.concerns o) <:+ asked.filter (D.concerns o))
    (hafter : ∀ o, after o ≠ none → before o ≠ none) :
    ∀ o, after o ≠ none → told.filter (D.concerns o) <:+ asked.filter (D.concerns o) :=
  fun o ho => hlast o (hafter o ho)

/-- Nothing is said about an object that has just been created. -/
theorem latest_create {told asked : List (Σ q, R q)} {held : ω → Option φ} {o : ω} {p : φ}
    (hlast : ∀ o, held o ≠ none → told.filter (D.concerns o) <:+ asked.filter (D.concerns o)) :
    ∀ o', Function.update held o (some p) o' ≠ none →
      (told.filter fun a => !D.concerns o a).filter (D.concerns o') <:+
        asked.filter (D.concerns o') := by
  intro o' ho'
  rw [List.filter_filter]
  by_cases heq : o' = o
  · subst heq
    simp
  · rw [Function.update_of_ne heq] at ho'
    have hsame : (fun a => D.concerns o' a && !D.concerns o a) = D.concerns o' := by
      funext a
      cases habout : D.about a.1 with
      | none => simp [Discipline.concerns, habout]
      | some x =>
        by_cases hx : x.1 = o'
        · simp [Discipline.concerns, habout, hx, heq]
        · simp [Discipline.concerns, habout, hx]
    rw [hsame]
    exact hlast o' ho'

/-- **One step**: if the callbacks respect the protocol, the objects that are
alive keep having owners. -/
theorem step {s' : ReactorState ι ω φ ε τ σ R} {handler : τ → Callback ω ε τ σ R}
    (hhandler : ∀ op, (handler op).Respects P D [] (P.needs op)) (h : Owned P D s owner)
    (hstep : Step P handler i s s') : ∃ owner', Owned P D s' owner' := by
  obtain ⟨told, htold, hlast, hi⟩ := h.follows i
  cases hstep with
  | complete _ hidle hpending => exact ⟨_, h.completed hidle hpending (hhandler _)⟩
  | create _ hrunning ho =>
    rw [hrunning] at hi
    have howner := (h.nobody _).mpr ho
    exact ⟨_, h.changed (.inl howner) ⟨_, fun a ha => htold (List.mem_of_mem_filter ha),
      latest_create hlast, hi _ (by simp [held, howner])⟩⟩
  | @access o e next _ _ hrunning hp =>
    rw [hrunning] at hi
    obtain ⟨p, p', hheld, -, hp', hnext⟩ := hi
    obtain ⟨howner, hobj⟩ := held_eq_some hheld
    rw [hobj, Option.bind_some, hp'] at hp
    obtain rfl := Option.some.inj hp
    refine ⟨_, h.changed (.inr howner) ⟨told, htold, latest_mono hlast fun o' ho' => ?_, hnext⟩⟩
    by_cases heq : o' = o
    · simp [heq, hheld]
    · rwa [Function.update_of_ne heq] at ho'
  | @destroy o next _ hrunning _ =>
    rw [hrunning] at hi
    obtain ⟨hheld, hnext⟩ := hi
    obtain ⟨p₀, hp₀, -⟩ := (Option.any_eq_true _ _).mp hheld
    refine ⟨_, h.changed (.inr (held_eq_some hp₀).1)
      ⟨told, htold, latest_mono hlast fun o' ho' => ?_, hnext⟩⟩
    by_cases heq : o' = o
    · simp [heq, hp₀]
    · rwa [Function.update_of_ne heq] at ho'
  | post _ hrunning =>
    rw [hrunning] at hi
    refine ⟨_, h.posted hi.1 ⟨told, htold, latest_mono hlast fun o' ho' => ?_, hi.2⟩⟩
    split_ifs at ho'
    · exact ho'
    · exact absurd rfl ho'
  | @ask q next r _ hrunning =>
    rw [hrunning] at hi
    refine ⟨_, h.answered hi.1 ⟨told ++ [⟨q, r⟩], List.append_subset.mpr
      ⟨List.Subset.trans htold (List.subset_append_left _ _), List.subset_append_right _ _⟩,
      fun o ho => ?_, hi.2 r⟩⟩
    rw [List.filter_append, List.filter_append]
    exact (List.suffix_append_inj_of_length_eq rfl).mpr ⟨hlast o ho, rfl⟩
  | @atomic f next _ hrunning =>
    rw [hrunning] at hi
    obtain ⟨hsound, hnext⟩ := hi s.shared h.sound
    have hmore : Owned P D { s with shared := f s.shared } owner :=
      h.congr rfl rfl rfl hsound rfl
    exact ⟨_, hmore.same ⟨told, htold, hlast, hnext⟩⟩
  | terminate _ _ => exact ⟨_, h.congr rfl rfl rfl h.sound rfl⟩

/-- A thread that owns what it acts on makes no error. -/
theorem not_faults (h : Owned P D s owner) (i : ι) : ¬ (s.running i).Faults P s.objects := by
  obtain ⟨_, -, -, hi⟩ := h.follows i
  intro hfault
  cases hrunning : s.running i with
  | access o e next =>
    rw [hrunning] at hi hfault
    obtain ⟨p, p', hheld, -, hp', -⟩ := hi
    change (s.objects o).bind (P.advance · e) = none at hfault
    rw [(held_eq_some hheld).2, Option.bind_some, hp'] at hfault
    contradiction
  | destroy o next =>
    rw [hrunning] at hi hfault
    obtain ⟨p, hp, hends⟩ := (Option.any_eq_true _ _).mp hi.1
    rw [Callback.Faults, (held_eq_some hp).2, Option.any_some, hends] at hfault
    contradiction
  | post op next =>
    rw [hrunning] at hi hfault
    obtain ⟨o, p, hneeds, hne⟩ := hfault
    exact hne (held_eq_some (hi.1 o p hneeds)).2
  | done | create | ask | atomic | terminate =>
    rw [hrunning] at hfault
    exact hfault

end Owned

section Runs

variable {P : Protocol ω φ ε τ} {D : Discipline ω φ ε σ R} {handler : τ → Callback ω ε τ σ R}
  {s₀ s : ReactorState ι ω φ ε τ σ R}

/-- Every reachable state has owners for its objects, if the first has. -/
theorem owned_of_reachable (hhandler : ∀ op, (handler op).Respects P D [] (P.needs op))
    (hinit : ∃ owner, Owned P D s₀ owner) (h : Reachable (SomeStep P handler) s₀ s) :
    ∃ owner, Owned P D s owner := by
  refine h.invariant (P := fun s => ∃ owner, Owned P D s owner) hinit ?_
  rintro s s' ⟨owner, hs⟩ ⟨i, hstep⟩
  exact hs.step hhandler hstep

/-- **No thread ever makes an error.** -/
theorem not_faulty (hhandler : ∀ op, (handler op).Respects P D [] (P.needs op))
    (hinit : ∃ owner, Owned P D s₀ owner) (h : Reachable (SomeStep P handler) s₀ s) :
    ¬ s.Faulty P := by
  obtain ⟨owner, hs⟩ := owned_of_reachable hhandler hinit h
  rintro ⟨i, hi⟩
  exact hs.not_faults i hi

/-- **Nothing is leaked**: when no callback is running, the objects that are
alive are those that the outstanding operations wait for. -/
theorem Owned.alive_iff {owner : ω → Owner ι} (h : Owned P D s owner) (hidle : s.Idle) (o : ω)
    (p : φ) : s.objects o = some p ↔ ∃ op ∈ s.pending, P.needs op o = some p := by
  constructor
  · intro ho
    cases howner : owner o with
    | nobody =>
      rw [(h.nobody o).mp howner] at ho
      contradiction
    | thread i =>
      -- a thread that runs no callback owns nothing
      obtain ⟨_, -, -, hi⟩ := h.follows i
      rw [hidle i] at hi
      have := hi o
      rw [held, if_pos howner, ho] at this
      contradiction
    | operation =>
      obtain ⟨op, hop, hne⟩ := h.needed o howner
      obtain ⟨p', hp'⟩ := Option.ne_none_iff_exists'.mp hne
      have hobj := (h.waits op hop o p' hp').2
      rw [ho] at hobj
      exact ⟨op, hop, by rw [hp', ← hobj]⟩
  · rintro ⟨op, hop, hp⟩
    exact (h.waits op hop o p hp).2

/-- No object is needed by two outstanding operations. -/
theorem Owned.countP_le_one {owner : ω → Owner ι} (h : Owned P D s owner) (o : ω) :
    s.pending.countP (fun op => (P.needs op o).isSome) ≤ 1 := by
  have hexclusive := h.exclusive
  generalize s.pending = pending at hexclusive
  induction pending with
  | nil => simp
  | cons op ops ih =>
    obtain ⟨halone, hops⟩ := List.pairwise_cons.mp hexclusive
    rw [List.countP_cons]
    by_cases hop : (P.needs op o).isSome = true
    · have hnone : ops.countP (fun op => (P.needs op o).isSome) = 0 := by
        refine List.countP_eq_zero.mpr fun op' hop' => ?_
        have := (halone op' hop' o).resolve_left (Option.isSome_iff_ne_none.mp hop)
        simp [this]
      simp [hnone, hop]
    · simpa [hop] using ih hops

/-- **One operation for each object** that is alive, when no callback is running. -/
theorem Owned.countP_of_idle {owner : ω → Owner ι} (h : Owned P D s owner) (hidle : s.Idle) (o : ω) :
    s.pending.countP (fun op => (P.needs op o).isSome) = if (s.objects o).isSome then 1 else 0 := by
  have hle := h.countP_le_one o
  have halive := h.alive_iff hidle o
  cases hobj : s.objects o with
  | none =>
    refine List.countP_eq_zero.mpr fun op hop hneeds => ?_
    obtain ⟨p, hp⟩ := Option.isSome_iff_exists.mp hneeds
    have := (halive p).mpr ⟨op, hop, hp⟩
    rw [hobj] at this
    contradiction
  | some p =>
    obtain ⟨op, hop, hneeds⟩ := (halive p).mp hobj
    have hpos : 0 < s.pending.countP fun op => (P.needs op o).isSome :=
      List.countP_pos_iff.mpr ⟨op, hop, by simp [hneeds]⟩
    simp only [Option.isSome_some, if_true]
    exact Nat.le_antisymm hle hpos

/-- The runtime is up, the shared state is as it should be, and no thread is
about to change that. -/
structure Steady (I : σ → Prop) (ok : (q : Q) → R q → Prop) (s : ReactorState ι ω φ ε τ σ R) :
    Prop where
  up : s.up = true
  shared : I s.shared
  threads : ∀ i, (s.running i).Safe I ok

/-- One step, if its answer is `ok`. -/
theorem Steady.step {I : σ → Prop} {ok : (q : Q) → R q → Prop} {s' : ReactorState ι ω φ ε τ σ R}
    {i : ι} (hhandler : ∀ op, (handler op).Safe I ok) (h : Steady I ok s)
    (hstep : Step P handler i s s') (hok : ∀ a ∈ s'.asked, ok a.1 a.2) : Steady I ok s' := by
  have hi := h.threads i
  -- the other threads are as they were
  have others {cb : Callback ω ε τ σ R} (hcb : cb.Safe I ok) (j : ι) :
      (Function.update s.running i cb j).Safe I ok :=
    (Function.forall_update_iff s.running fun _ cb => cb.Safe I ok).mpr
      ⟨hcb, fun j _ => h.threads j⟩ j
  cases hstep with
  | complete _ _ _ => exact ⟨h.up, h.shared, others (hhandler _)⟩
  | create _ hrunning _ =>
    rw [hrunning] at hi
    exact ⟨h.up, h.shared, others (hi _)⟩
  | access _ hrunning _ | destroy _ hrunning _ | post _ hrunning =>
    rw [hrunning] at hi
    exact ⟨h.up, h.shared, others hi⟩
  | @ask q next r _ hrunning =>
    rw [hrunning] at hi
    have hr := hok ⟨q, r⟩ (List.mem_append_right _ (List.mem_singleton_self _))
    exact ⟨h.up, h.shared, others ((hi r).1 hr)⟩
  | atomic _ hrunning =>
    rw [hrunning] at hi
    obtain ⟨hshared, hnext⟩ := hi s.shared h.shared
    exact ⟨h.up, hshared, others hnext⟩
  | terminate _ hrunning =>
    rw [hrunning] at hi
    exact hi.elim

/-- What has been asked is not forgotten. -/
theorem asked_of_step {s' : ReactorState ι ω φ ε τ σ R} {i : ι} (hstep : Step P handler i s s') :
    s.asked ⊆ s'.asked := by
  cases hstep with
  | ask r _ _ => exact List.subset_append_left _ _
  | complete | create | access | destroy | post | atomic | terminate => exact List.Subset.refl _

/-- **What a phase tells**: if it is known of every object that is alive at first or
has just been created, and each access that is duly made keeps it known, then it is
known in every reachable state. A question about an object is asked in one phase of
it only, and the last answers about it are those that its owner has been given. -/
theorem known_of_reachable {K : List (Σ q, R q) → ω → φ → Prop}
    (hhandler : ∀ op, (handler op).Respects P D [] (P.needs op))
    (hinit : ∃ owner, Owned P D s₀ owner)
    (hgiven : ∀ o p, s₀.objects o = some p → K s₀.asked o p)
    (hborn : ∀ asked o, K asked o P.born)
    (hmore : ∀ asked a o p, (∀ p', D.about a.1 = some (o, p') → p' = p) → K asked o p →
      K (asked ++ [a]) o p)
    (hduly : ∀ told asked o p e, told ⊆ asked →
      told.filter (D.concerns o) <:+ asked.filter (D.concerns o) → D.duly told o p e →
        D.duly asked o p e)
    (haccess : ∀ asked o p e p', K asked o p → D.duly asked o p e →
      P.advance p e = some p' → K asked o p')
    (h : Reachable (SomeStep P handler) s₀ s) : ∀ o p, s.objects o = some p → K s.asked o p := by
  suffices hboth : (∃ owner, Owned P D s owner) ∧ ∀ o p, s.objects o = some p → K s.asked o p
    from hboth.2
  refine h.invariant
    (P := fun s => (∃ owner, Owned P D s owner) ∧ ∀ o p, s.objects o = some p → K s.asked o p)
    ⟨hinit, hgiven⟩ ?_
  rintro s s' ⟨⟨owner, hs⟩, hknown⟩ ⟨i, hstep⟩
  refine ⟨hs.step hhandler hstep, fun o p ho => ?_⟩
  cases hstep with
  | @create kind n _ _ _ _ =>
    change Function.update s.objects (kind n) (some P.born) o = some p at ho
    rw [Function.update_apply] at ho
    split_ifs at ho
    · exact Option.some.inj ho ▸ hborn _ _
    · exact hknown o p ho
  | @access o' e next p' _ hrunning hp =>
    change Function.update s.objects o' (some p') o = some p at ho
    rw [Function.update_apply] at ho
    split_ifs at ho with heq
    · -- the object that is accessed
      subst heq
      obtain rfl := Option.some.inj ho
      obtain ⟨told, htold, hlast, hi⟩ := hs.follows i
      rw [hrunning] at hi
      obtain ⟨p₀, p₁, hheld, hmade, hp₁, -⟩ := hi
      obtain ⟨-, hobj⟩ := Owned.held_eq_some hheld
      rw [hobj, Option.bind_some, hp₁] at hp
      obtain rfl := Option.some.inj hp
      have hduly := hduly told _ _ p₀ e htold (hlast _ (by simp [hheld])) hmade
      exact haccess _ _ p₀ e _ (hknown _ _ hobj) hduly hp₁
    · exact hknown o p ho
  | @destroy o' next _ _ _ =>
    change Function.update s.objects o' none o = some p at ho
    rw [Function.update_apply] at ho
    split_ifs at ho
    exact hknown o p ho
  | @ask q next r _ hrunning =>
    refine hmore _ ⟨q, r⟩ o p (fun p' habout => ?_) (hknown o p ho)
    -- the thread that asks owns the object
    obtain ⟨_, -, -, hi⟩ := hs.follows i
    rw [hrunning] at hi
    have hobj := (Owned.held_eq_some (hi.1 o p' habout)).2
    exact Option.some.inj (hobj.symm.trans ho)
  | complete | post | atomic | terminate => exact hknown o p ho

/-- **The runtime stays up** as long as all answers are `ok`. -/
theorem steady_of_reachable {I : σ → Prop} {ok : (q : Q) → R q → Prop}
    (hhandler : ∀ op, (handler op).Safe I ok) (hinit : Steady I ok s₀)
    (h : Reachable (SomeStep P handler) s₀ s) (hok : ∀ a ∈ s.asked, ok a.1 a.2) :
    Steady I ok s := by
  refine h.invariant (P := fun s => (∀ a ∈ s.asked, ok a.1 a.2) → Steady I ok s)
    (fun _ => hinit) ?_ hok
  rintro s s' hs ⟨i, hstep⟩ hok'
  exact (hs fun a ha => hok' a (asked_of_step hstep ha)).step hhandler hstep hok'

/-- The runtime has ended, or a thread is about to end it. -/
def Ending (s : ReactorState ι ω φ ε τ σ R) : Prop :=
  s.up = false ∨ ∃ i, s.running i = .terminate

/-- There is no way back. -/
theorem Ending.step {s' : ReactorState ι ω φ ε τ σ R} {i : ι} (h : s.Ending)
    (hstep : Step P handler i s s') : s'.Ending := by
  have hup : s.up = true := by cases hstep <;> assumption
  obtain ⟨j, hj⟩ := h.resolve_left (by simp [hup])
  by_cases hij : j = i
  · subst hij
    -- the thread can only take its last step
    cases hstep with
    | terminate => exact .inl rfl
    | complete _ hrunning | create _ hrunning | access _ hrunning | destroy _ hrunning
    | post _ hrunning | ask _ _ hrunning | atomic _ hrunning =>
      rw [hj] at hrunning
      contradiction
  · have other (cb : Callback ω ε τ σ R) : Function.update s.running i cb j = .terminate := by
      rw [Function.update_of_ne hij, hj]
    cases hstep with
    | terminate => exact .inl rfl
    | complete | create | access | destroy | post | ask | atomic => exact .inr ⟨j, other _⟩

/-- **Exactly when the runtime ends**: when an answer was not `ok`. -/
theorem ending_iff {I : σ → Prop} {ok : (q : Q) → R q → Prop}
    (hhandler : ∀ op, (handler op).Safe I ok) (hinit : Steady I ok s₀) (hasked : s₀.asked = [])
    (h : Reachable (SomeStep P handler) s₀ s) :
    s.Ending ↔ ∃ a ∈ s.asked, ¬ ok a.1 a.2 := by
  constructor
  · intro hending
    by_contra hnot
    have hsteady := steady_of_reachable hhandler hinit h fun a ha => by
      by_contra hbad
      exact hnot ⟨a, ha, hbad⟩
    rcases hending with hdown | ⟨i, hi⟩
    · rw [hsteady.up] at hdown
      contradiction
    · have := hsteady.threads i
      rw [hi] at this
      exact this
  · induction h with
    | refl => simp [hasked]
    | @tail mid s hreach hstep ih =>
      rintro ⟨a, ha, hbad⟩
      obtain ⟨i, hstep⟩ := hstep
      by_cases hbefore : ∃ a ∈ mid.asked, ¬ ok a.1 a.2
      · exact (ih hbefore).step hstep
      · have hsteady := steady_of_reachable hhandler hinit hreach fun a ha => by
          by_contra hbad
          exact hbefore ⟨a, ha, hbad⟩
        have hi := hsteady.threads i
        -- the bad answer has just been given
        cases hstep with
        | @ask q next r _ hrunning =>
          rw [hrunning] at hi
          obtain rfl : a = ⟨q, r⟩ := by
            refine List.mem_singleton.mp ((List.mem_append.mp ha).resolve_left fun ha => ?_)
            exact hbefore ⟨a, ha, hbad⟩
          exact .inr ⟨i, (Function.update_self _ _ _).trans ((hi r).2 hbad)⟩
        | complete | create | access | destroy | post | atomic | terminate =>
          exact absurd ⟨a, ha, hbad⟩ hbefore

end Runs

/-! ## Conservation -/

section Ledger

variable [Fintype ι] [AddCommMonoid M] {credit : (q : Q) → R q → M} {view : σ → M}
  {P : Protocol ω φ ε τ} {handler : τ → Callback ω ε τ σ R}

/-- The sum of what the environment's answers have brought so far. -/
def credits (credit : (q : Q) → R q → M) (asked : List (Σ q, R q)) : M :=
  (asked.map fun a => credit a.1 a.2).sum

/-- What is booked and what the threads have yet to book is what the answers have
brought. -/
structure Balanced (credit : (q : Q) → R q → M) (view : σ → M) (opening : M)
    (s : ReactorState ι ω φ ε τ σ R) (debt : ι → M) : Prop where
  owes : ∀ i, (s.running i).Owes credit view (debt i)
  sum : view s.shared + ∑ i, debt i = opening + credits credit s.asked

variable {opening : M} {s s' : ReactorState ι ω φ ε τ σ R} {debt : ι → M} {i : ι}

omit [DecidableEq ω] in
/-- A thread goes on with the debt `m`, after `c` has been credited. -/
theorem Balanced.go {cb : Callback ω ε τ σ R} {m c : M} (h : Balanced credit view opening s debt)
    (hrunning : s'.running = Function.update s.running i cb) (hcb : cb.Owes credit view m)
    (hview : view s'.shared + m = view s.shared + debt i + c)
    (hasked : credits credit s'.asked = credits credit s.asked + c) :
    Balanced credit view opening s' (Function.update debt i m) := by
  constructor
  · intro j
    rw [hrunning]
    by_cases hj : j = i
    · subst hj
      rwa [Function.update_self, Function.update_self]
    · rw [Function.update_of_ne hj, Function.update_of_ne hj]
      exact h.owes j
  · obtain ⟨others, hbefore, hafter⟩ : ∃ others, ∑ j, debt j = debt i + others ∧
        ∑ j, Function.update debt i m j = m + others := by
      refine ⟨∑ j ∈ Finset.univ.erase i, debt j,
        (Finset.add_sum_erase _ _ (Finset.mem_univ i)).symm, ?_⟩
      rw [← Finset.add_sum_erase _ _ (Finset.mem_univ i), Function.update_self]
      refine congrArg (m + ·) (Finset.sum_congr rfl fun j hj => ?_)
      rw [Function.update_of_ne (Finset.ne_of_mem_erase hj)]
    have hsum := h.sum
    rw [hbefore] at hsum
    rw [hafter, hasked]
    calc view s'.shared + (m + others)
        = view s.shared + debt i + c + others := by rw [← add_assoc, hview]
      _ = view s.shared + (debt i + others) + c := by
        rw [← add_assoc, add_right_comm]
      _ = opening + (credits credit s.asked + c) := by rw [hsum, add_assoc]

/-- One step books what it takes off a thread's debt. -/
theorem Balanced.step (hhandler : ∀ op, (handler op).Owes credit view 0)
    (h : Balanced credit view opening s debt) (hstep : Step P handler i s s') :
    ∃ debt', Balanced credit view opening s' debt' := by
  have hi := h.owes i
  cases hstep with
  | complete _ hidle _ =>
    rw [hidle] at hi
    have hzero : debt i = 0 := hi
    exact ⟨_, h.go (c := 0) rfl (hhandler _) (by simp [hzero]) (by simp)⟩
  | create _ hrunning _ =>
    rw [hrunning] at hi
    exact ⟨_, h.go (c := 0) rfl (hi _) (by simp) (by simp)⟩
  | access _ hrunning _ | destroy _ hrunning _ | post _ hrunning =>
    rw [hrunning] at hi
    exact ⟨_, h.go (c := 0) rfl hi (by simp) (by simp)⟩
  | @ask q next r _ hrunning =>
    rw [hrunning] at hi
    refine ⟨_, h.go (c := credit q r) rfl (hi r) ?_ ?_⟩
    · rw [add_assoc]
      rfl
    · simp [credits]
  | @atomic f next _ hrunning =>
    rw [hrunning] at hi
    obtain ⟨rest, hview, hnext⟩ := hi s.shared
    exact ⟨_, h.go (c := 0) rfl hnext (by rw [add_zero]; exact hview) (by simp)⟩
  | terminate _ _ => exact ⟨debt, h.owes, h.sum⟩

/-- **Conservation**: when no callback is running, the shared state holds what it
held at the start and all that the answers have brought. -/
theorem ledger {s₀ : ReactorState ι ω φ ε τ σ R}
    (hhandler : ∀ op, (handler op).Owes credit view 0)
    (hinit : ∀ i, (s₀.running i).Owes credit view 0) (hasked : s₀.asked = [])
    (h : Reachable (SomeStep P handler) s₀ s) :
    ∃ debt, Balanced credit view (view s₀.shared) s debt := by
  refine h.invariant (P := fun s => ∃ debt, Balanced credit view (view s₀.shared) s debt) ?_ ?_
  · exact ⟨fun _ => 0, hinit, by simp [hasked, credits]⟩
  · rintro s s' ⟨debt, hs⟩ ⟨i, hstep⟩
    exact hs.step hhandler hstep

omit [DecidableEq ι] [DecidableEq ω] in
/-- Threads that run no callback owe nothing. -/
theorem Balanced.sum_of_idle (h : Balanced credit view opening s debt) (hidle : s.Idle) :
    view s.shared = opening + credits credit s.asked := by
  have hzero (i : ι) : debt i = 0 := by
    have hi := h.owes i
    rw [hidle i] at hi
    exact hi
  rw [← h.sum, Finset.sum_eq_zero fun i _ => hzero i, add_zero]

end Ledger

end ReactorState

end Lib
