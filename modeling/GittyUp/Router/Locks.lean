import GittyUp.Lib.Locks
import GittyUp.Router.Selection
import GittyUp.Router.Status

/-!
# The locks of the router (`router.cc`, `server_status_recorder.cc`)

Every public method of the router is a program that takes the locks of the
router and of the recorder, where the source has a `lock_guard` or a call of
`lock`. Almost everywhere `config_lock_` or `route_map_lock_` is the only one of
the two; but `register_routes_from_config` takes the second inside of the first,
and `get_route_handler` the first inside of the second for a URI that is not
registered. `no_deadlock_iff`: threads wait for each other only when the one
happens during the other.
-/

namespace GittyUp

open Lib

/-! ## Locks and where they are taken -/

/-- The mutexes of the router, and the two of the recorder. -/
inductive RouterLock where
  | routeMapLock
  | configLock
  | headerLock
  | logLock
  | responseListLock
  | prefixListLock
  deriving DecidableEq, Repr

/-- The functions that take a lock; each takes one. -/
inductive LockSite where
  | registerRoute
  | registerRoutesFromConfig
  | registerDefaultHeader
  | routeRequest
  | getRouteHandler
  | getHeader
  | getHandlerConfig
  | applyDefaultHeaders
  | longestPrefixMatch
  | requestRecorder
  | prefixRecorder
  | getUrlResponseList
  | getPrefixHandlerList
  | getUrlResponseListSize
  deriving DecidableEq, Repr

/-- The mutex that a function locks. -/
def LockSite.lock : LockSite → RouterLock
  | .registerRoute | .getRouteHandler | .longestPrefixMatch => .routeMapLock
  | .registerRoutesFromConfig | .getHandlerConfig => .configLock
  | .registerDefaultHeader | .getHeader | .applyDefaultHeaders => .headerLock
  | .routeRequest => .logLock
  | .requestRecorder | .getUrlResponseList | .getUrlResponseListSize => .responseListLock
  | .prefixRecorder | .getPrefixHandlerList => .prefixListLock

/-- The rest of what a thread does with the router. -/
abbrev RouterProg := LockProg LockSite RouterState

/-! ## The methods -/

/-- `router::register_route`. -/
def registerRouteProg (uri handlerName : Bytes) (k : RouterProg) : RouterProg :=
  .acquire .registerRoute <| .look fun st =>
    if uri ∉ st.router.routeMap then
      .acquire .prefixRecorder <|
      .modify (fun st => { st with recorder := st.recorder.prefixRecorder (uri, handlerName) }) <|
      .release .prefixRecorder <|
      .modify (fun st => { st with router :=
        { st.router with routeMap := st.router.routeMap.insertNew uri handlerName } }) <|
      .release .registerRoute k
    else .release .registerRoute k

/-- The loops of `router::register_routes_from_config`, over the routes that are
left. -/
def registerRoutesProg : List (Bytes × Bytes) → RouterProg → RouterProg
  | [], k => k
  | route :: routes, k => registerRouteProg route.1 route.2 (registerRoutesProg routes k)

/-- `router::register_routes_from_config` (undefined for a location without a
path, which is left out here). -/
def registerRoutesFromConfigProg (k : RouterProg) : RouterProg :=
  .acquire .registerRoutesFromConfig <| .look fun st =>
    registerRoutesProg (st.router.config.flatMap statementRoutes)
      (.release .registerRoutesFromConfig k)

/-- `router::register_default_header`. -/
def registerDefaultHeaderProg (name value : Bytes) (k : RouterProg) : RouterProg :=
  .acquire .registerDefaultHeader <|
  .modify (fun st => { st with router :=
    { st.router with headers := st.router.headers.insert name value } }) <|
  .release .registerDefaultHeader k

/-- `router::get_handler_config`. -/
def getHandlerConfigProg (k : RouterProg) : RouterProg :=
  .acquire .getHandlerConfig <| .look fun _ => .release .getHandlerConfig k

/-- `router::get_route_handler`, which hands on the handler's name. -/
def getRouteHandlerProg (uri : Bytes) (k : Option Bytes → RouterProg) : RouterProg :=
  .acquire .getRouteHandler <| .look fun st =>
    match st.router.routeMap.lookup uri with
    | some handler => .release .getRouteHandler (k (some handler))
    | none => getHandlerConfigProg <| .look fun st =>
      .release .getRouteHandler (k (getRouteHandler st.router uri))

/-- `router::get_header`. -/
def getHeaderProg (k : RouterProg) : RouterProg :=
  .acquire .getHeader <| .look fun _ => .release .getHeader k

/-- `router::longest_prefix_match`, which hands on the match. -/
def longestPrefixMatchProg (order : UnorderedMap Bytes Bytes → List (Bytes × Bytes)) (uri : Bytes)
    (k : Bytes → RouterProg) : RouterProg :=
  .acquire .longestPrefixMatch <| .look fun st =>
    .release .longestPrefixMatch (k (longestPrefixMatch (order st.router.routeMap) uri))

/-- The calls of the recorder by the handlers: only the status handler makes any. -/
def handlerProg : HandlerClass → RouterProg → RouterProg
  | .status, k =>
    .acquire .getUrlResponseListSize <| .release .getUrlResponseListSize <|
    .acquire .getUrlResponseList <| .release .getUrlResponseList <|
    .acquire .getPrefixHandlerList <| .release .getPrefixHandlerList k
  | _, k => k

/-- The rest of `router::route_request`, behind a handler that has returned. -/
def recordProg (order : UnorderedMap Bytes Bytes → List (Bytes × Bytes)) (uri : Bytes) (code : Nat)
    (k : RouterProg) : RouterProg :=
  .acquire .requestRecorder <|
  .modify (fun st => { st with recorder := st.recorder.requestRecorder uri code }) <|
  .release .requestRecorder <|
  .acquire .routeRequest <|
  longestPrefixMatchProg order uri fun route => getRouteHandlerProg route fun _ =>
  .release .routeRequest <|
  .acquire .applyDefaultHeaders <| .look fun _ => .release .applyDefaultHeaders k

/-- `router::route_request`; `code` is the status of the handler's response, if
it does not throw. -/
def routeRequestProg (order : UnorderedMap Bytes Bytes → List (Bytes × Bytes)) (uri : Bytes)
    (code : Option Nat) (k : RouterProg) : RouterProg :=
  longestPrefixMatchProg order uri fun route => getRouteHandlerProg route fun handler =>
  getHandlerConfigProg <|
  handlerProg (handlerClass (handler.getD "")).1 <|
  match code with
  | some code => recordProg order uri code k
  | none => k

/-- A call of a public method. -/
inductive RouterCall where
  | registerRoute (uri handlerName : Bytes)
  | registerRoutesFromConfig
  | registerDefaultHeader (name value : Bytes)
  | getRouteHandler (uri : Bytes)
  | getHeader (name : Bytes)
  | routeRequest (uri : Bytes) (code : Option Nat)
  deriving DecidableEq, Repr

/-- The program of a call. -/
def RouterCall.prog (order : UnorderedMap Bytes Bytes → List (Bytes × Bytes)) :
    RouterCall → RouterProg → RouterProg
  | .registerRoute uri handlerName => registerRouteProg uri handlerName
  | .registerRoutesFromConfig => registerRoutesFromConfigProg
  | .registerDefaultHeader name value => registerDefaultHeaderProg name value
  | .getRouteHandler uri => fun k => getRouteHandlerProg uri fun _ => k
  | .getHeader _ => getHeaderProg
  | .routeRequest uri code => routeRequestProg order uri code

/-- The program of a thread that makes the calls in turn. -/
def callsProg (order : UnorderedMap Bytes Bytes → List (Bytes × Bytes)) (calls : List RouterCall) :
    RouterProg :=
  calls.foldr (RouterCall.prog order) .done

/-! ## The methods alone -/

section Alone

variable (k : RouterProg) (st : RouterState)

/-- A thread that runs alone registers a route as `registerRoute` does. -/
theorem run_registerRouteProg (uri handlerName : Bytes) :
    (registerRouteProg uri handlerName k).run st = k.run (registerRoute st uri handlerName) := by
  show (if uri ∉ st.router.routeMap then _ else _ : RouterProg).run st = _
  unfold registerRoute
  by_cases huri : uri ∉ st.router.routeMap
  · rw [if_pos huri, if_pos huri]
    rfl
  · rw [if_neg huri, if_neg huri]
    rfl

theorem run_registerRoutesProg (routes : List (Bytes × Bytes)) :
    (registerRoutesProg routes k).run st = k.run (registerAll routes st) := by
  induction routes generalizing st with
  | nil => rfl
  | cons route routes ih =>
    rw [registerRoutesProg, run_registerRouteProg]
    exact ih _

/-- It registers the routes of a config as `registerRoutesFromConfig` does. -/
theorem run_registerRoutesFromConfigProg (h : HandlersComplete st.router.config) :
    some ((registerRoutesFromConfigProg k).run st) = (registerRoutesFromConfig st).map k.run := by
  rw [registerRoutesFromConfig, registerHandlers_eq _ h]
  exact congrArg some (run_registerRoutesProg _ st (st.router.config.flatMap statementRoutes))

/-- It finds the handler that `getRouteHandler` finds. -/
theorem run_getRouteHandlerProg (uri : Bytes) (k : Option Bytes → RouterProg) :
    (getRouteHandlerProg uri k).run st = (k (getRouteHandler st.router uri)).run st := by
  show (match st.router.routeMap.lookup uri with
    | some handler => _
    | none => _ : RouterProg).run st = _
  cases hlookup : st.router.routeMap.lookup uri with
  | some handler =>
    have hfound : getRouteHandler st.router uri = some handler := by
      unfold getRouteHandler
      rw [hlookup]
    rw [hfound]
    rfl
  | none => rfl

theorem run_longestPrefixMatchProg (order : UnorderedMap Bytes Bytes → List (Bytes × Bytes))
    (uri : Bytes) (k : Bytes → RouterProg) : (longestPrefixMatchProg order uri k).run st =
      (k (longestPrefixMatch (order st.router.routeMap) uri)).run st :=
  rfl

/-- It records the response of a request. -/
theorem run_routeRequestProg (order : UnorderedMap Bytes Bytes → List (Bytes × Bytes))
    (uri : Bytes) (code : Nat) : (routeRequestProg order uri (some code) k).run st =
      k.run { st with recorder := st.recorder.requestRecorder uri code } := by
  rw [routeRequestProg, run_longestPrefixMatchProg, run_getRouteHandlerProg]
  show (handlerProg _ (recordProg order uri code k)).run st = _
  have hhandler (handlerClass : HandlerClass) (next : RouterProg) :
      (handlerProg handlerClass next).run st = next.run st := by
    cases handlerClass <;> rfl
  rw [hhandler]
  show (longestPrefixMatchProg order uri fun route => getRouteHandlerProg route fun _ =>
    .release .routeRequest <| .acquire .applyDefaultHeaders <| .look fun _ =>
      .release .applyDefaultHeaders k).run
        { st with recorder := st.recorder.requestRecorder uri code } = _
  rw [run_longestPrefixMatchProg, run_getRouteHandlerProg]
  rfl

end Alone

/-! ## Nesting -/

/-- The function on the right takes its lock while the one on the left holds its
own. -/
def nestedSites : List (LockSite × LockSite) :=
  [(.registerRoutesFromConfig, .registerRoute), (.registerRoutesFromConfig, .prefixRecorder),
    (.registerRoute, .prefixRecorder), (.getRouteHandler, .getHandlerConfig),
    (.routeRequest, .longestPrefixMatch), (.routeRequest, .getRouteHandler),
    (.routeRequest, .getHandlerConfig)]

/-- `outer` may hold its lock while `inner` takes its own. -/
def Nested (outer inner : LockSite) : Prop := (outer, inner) ∈ nestedSites

instance (outer inner : LockSite) : Decidable (Nested outer inner) :=
  inferInstanceAs (Decidable (_ ∈ _))

section Nesting

variable {held : List LockSite} {k : RouterProg}

theorem nests_registerRouteProg (uri handlerName : Bytes) (hk : k.Nests Nested held)
    (hroute : ∀ h ∈ held, Nested h .registerRoute)
    (hmutex : ∀ h ∈ held, Nested h .prefixRecorder) :
    (registerRouteProg uri handlerName k).Nests Nested held := by
  have hmutex' : ∀ h ∈ LockSite.registerRoute :: held, Nested h .prefixRecorder :=
    List.forall_mem_cons.mpr ⟨by decide, hmutex⟩
  refine ⟨hroute, fun st => ?_⟩
  dsimp only
  by_cases huri : uri ∉ st.router.routeMap
  · rw [if_pos huri]
    exact ⟨hmutex', _, rfl, _, rfl, hk⟩
  · rw [if_neg huri]
    exact ⟨_, rfl, hk⟩

theorem nests_registerRoutesProg (routes : List (Bytes × Bytes)) (hk : k.Nests Nested held)
    (hroute : ∀ h ∈ held, Nested h .registerRoute)
    (hmutex : ∀ h ∈ held, Nested h .prefixRecorder) :
    (registerRoutesProg routes k).Nests Nested held := by
  induction routes with
  | nil => exact hk
  | cons route routes ih => exact nests_registerRouteProg route.1 route.2 ih hroute hmutex

theorem nests_registerRoutesFromConfigProg (hk : k.Nests Nested []) :
    (registerRoutesFromConfigProg k).Nests Nested [] := by
  refine ⟨by simp, fun st => ?_⟩
  exact nests_registerRoutesProg _ ⟨[], rfl, hk⟩ (by decide) (by decide)

theorem nests_getHandlerConfigProg (hk : k.Nests Nested held)
    (h : ∀ h ∈ held, Nested h .getHandlerConfig) : (getHandlerConfigProg k).Nests Nested held :=
  ⟨h, fun _ => ⟨_, rfl, hk⟩⟩

theorem nests_getRouteHandlerProg (uri : Bytes) {k : Option Bytes → RouterProg}
    (hk : ∀ handler, (k handler).Nests Nested held) (h : ∀ h ∈ held, Nested h .getRouteHandler)
    (hconfig : ∀ h ∈ held, Nested h .getHandlerConfig) :
    (getRouteHandlerProg uri k).Nests Nested held := by
  have hconfig' : ∀ h ∈ LockSite.getRouteHandler :: held, Nested h .getHandlerConfig :=
    List.forall_mem_cons.mpr ⟨by decide, hconfig⟩
  refine ⟨h, fun st => ?_⟩
  dsimp only
  cases st.router.routeMap.lookup uri with
  | some handler => exact ⟨_, rfl, hk _⟩
  | none =>
    refine nests_getHandlerConfigProg ?_ hconfig'
    exact fun _ => ⟨_, rfl, hk _⟩

theorem nests_longestPrefixMatchProg (order : UnorderedMap Bytes Bytes → List (Bytes × Bytes))
    (uri : Bytes) {k : Bytes → RouterProg} (hk : ∀ route, (k route).Nests Nested held)
    (h : ∀ h ∈ held, Nested h .longestPrefixMatch) :
    (longestPrefixMatchProg order uri k).Nests Nested held :=
  ⟨h, fun _ => ⟨_, rfl, hk _⟩⟩

theorem nests_handlerProg (handlerClass : HandlerClass) (hk : k.Nests Nested []) :
    (handlerProg handlerClass k).Nests Nested [] := by
  cases handlerClass with
  | status => exact ⟨by simp, _, rfl, by simp, _, rfl, by simp, _, rfl, hk⟩
  | _ => exact hk

theorem nests_recordProg (order : UnorderedMap Bytes Bytes → List (Bytes × Bytes)) (uri : Bytes)
    (code : Nat) (hk : k.Nests Nested []) : (recordProg order uri code k).Nests Nested [] := by
  refine ⟨by simp, _, rfl, by simp, ?_⟩
  refine nests_longestPrefixMatchProg order uri (fun route => ?_) (by decide)
  refine nests_getRouteHandlerProg route (fun _ => ?_) (by decide) (by decide)
  exact ⟨_, rfl, by simp, fun _ => ⟨_, rfl, hk⟩⟩

theorem nests_routeRequestProg (order : UnorderedMap Bytes Bytes → List (Bytes × Bytes))
    (uri : Bytes) (code : Option Nat) (hk : k.Nests Nested []) :
    (routeRequestProg order uri code k).Nests Nested [] := by
  refine nests_longestPrefixMatchProg order uri (fun route => ?_) (by simp)
  refine nests_getRouteHandlerProg route (fun handler => ?_) (by simp) (by simp)
  refine nests_getHandlerConfigProg (nests_handlerProg _ ?_) (by simp)
  cases code with
  | some code => exact nests_recordProg order uri code hk
  | none => exact hk

/-- **A thread nests its locks as listed**, whatever it calls. -/
theorem nests_callsProg (order : UnorderedMap Bytes Bytes → List (Bytes × Bytes))
    (calls : List RouterCall) : (callsProg order calls).Nests Nested [] := by
  induction calls with
  | nil => rfl
  | cons call calls ih =>
    cases call with
    | registerRoute uri name => exact nests_registerRouteProg uri name ih (by simp) (by simp)
    | registerRoutesFromConfig => exact nests_registerRoutesFromConfigProg ih
    | registerDefaultHeader name value => exact ⟨by simp, _, rfl, ih⟩
    | getRouteHandler uri => exact nests_getRouteHandlerProg uri (fun _ => ih) (by simp) (by simp)
    | getHeader name => exact ⟨by simp, fun _ => ⟨_, rfl, ih⟩⟩
    | routeRequest uri code => exact nests_routeRequestProg order uri code ih

end Nesting

/-! ## Who waits for whom -/

section Waiting

variable {ι : Type} {s s' : LockState ι LockSite RouterState} {i j : ι}

/-- The thread is in the loop of `register_routes_from_config`, about to register
a route. -/
def Registering (s : LockState ι LockSite RouterState) (i : ι) : Prop :=
  .registerRoutesFromConfig ∈ s.held i ∧ s.Waits i .registerRoute

/-- The thread is in the second branch of `get_route_handler`: the URI is not
registered. -/
def Missed (s : LockState ι LockSite RouterState) (j : ι) : Prop :=
  .getRouteHandler ∈ s.held j ∧ s.Waits j .getHandlerConfig

/-- Without a lookup that misses, `config_lock_` comes before `route_map_lock_`. -/
def configFirst : RouterLock → Nat
  | .logLock => 0
  | .configLock => 1
  | .routeMapLock => 2
  | _ => 3

/-- Without a registration, `route_map_lock_` comes before `config_lock_`. -/
def routeMapFirst : RouterLock → Nat
  | .logLock => 0
  | .routeMapLock => 1
  | .configLock => 2
  | _ => 3

/-- **Who waits for whom**: threads are deadlocked exactly when one of them is
about to register a route from the config, and another has missed a URI. -/
theorem deadlocked_iff (h : s.AllNest Nested) :
    s.Deadlocked LockSite.lock ↔ (∃ i, Registering s i) ∧ ∃ j, Missed s j := by
  constructor
  · intro hdead
    by_contra hnot
    rw [not_and_or] at hnot
    rcases hnot with hreg | hmiss
    · have hrank : ∀ p ∈ nestedSites, p ≠ (.registerRoutesFromConfig, .registerRoute) →
          routeMapFirst p.1.lock < routeMapFirst p.2.lock := by decide
      refine LockState.not_deadlocked_of_rank routeMapFirst 4 (fun l => ?_)
        (fun i site hwaits held hheld => hrank _ (h.inside hwaits hheld) fun heq => ?_) hdead
      · cases l <;> decide
      · obtain ⟨rfl, rfl⟩ := Prod.mk.inj heq
        exact hreg ⟨i, hheld, hwaits⟩
    · have hrank : ∀ p ∈ nestedSites, p ≠ (.getRouteHandler, .getHandlerConfig) →
          configFirst p.1.lock < configFirst p.2.lock := by decide
      refine LockState.not_deadlocked_of_rank configFirst 4 (fun l => ?_)
        (fun i site hwaits held hheld => hrank _ (h.inside hwaits hheld) fun heq => ?_) hdead
      · cases l <;> decide
      · obtain ⟨rfl, rfl⟩ := Prod.mk.inj heq
        exact hmiss ⟨i, hheld, hwaits⟩
  · rintro ⟨⟨i, hconfig, hroute⟩, j, hmap, hget⟩
    refine ⟨{i, j}, ⟨i, .inl rfl⟩, ?_⟩
    rintro k (rfl | rfl)
    · exact ⟨_, hroute, j, .inr rfl, _, hmap, rfl⟩
    · exact ⟨_, hget, i, .inl rfl, _, hconfig, rfl⟩

/-- The same thread is not at both places. -/
theorem Registering.ne (hi : Registering s i) (hj : Missed s j) : i ≠ j := by
  rintro rfl
  have := hi.2.unique hj.2
  contradiction

/-- The step of the thread `i` neither misses a URI while another thread is about
to register a route from the config, nor the other way round. -/
def Permitted (s : LockState ι LockSite RouterState) (i : ι)
    (s' : LockState ι LockSite RouterState) : Prop :=
  (Missed s' i → ∀ j, j ≠ i → ¬ Registering s j) ∧
    (Registering s' i → ∀ j, j ≠ i → ¬ Missed s j)

variable [DecidableEq ι]

theorem registering_frame (h : LockStep LockSite.lock i s s') (hj : j ≠ i) :
    Registering s' j ↔ Registering s j := by
  unfold Registering LockState.Waits
  rw [(h.frame hj).1, (h.frame hj).2]

theorem missed_frame (h : LockStep LockSite.lock i s s') (hj : j ≠ i) :
    Missed s' j ↔ Missed s j := by
  unfold Missed LockState.Waits
  rw [(h.frame hj).1, (h.frame hj).2]

/-- A step leads to a deadlock exactly when it is not permitted. -/
theorem deadlocked_iff_not_permitted (h : LockStep LockSite.lock i s s')
    (hnest : s.AllNest Nested) (hs : ¬ s.Deadlocked LockSite.lock) :
    s'.Deadlocked LockSite.lock ↔ ¬ Permitted s i s' := by
  rw [deadlocked_iff hnest] at hs
  rw [deadlocked_iff (h.allNest hnest)]
  constructor
  · rintro ⟨⟨a, ha⟩, b, hb⟩ hpermitted
    have hne := ha.ne hb
    by_cases hai : a = i
    · subst hai
      exact hpermitted.2 ha b hne.symm ((missed_frame h hne.symm).mp hb)
    · have ha' := (registering_frame h hai).mp ha
      by_cases hbi : b = i
      · subst hbi
        exact hpermitted.1 hb a hne ha'
      · exact hs ⟨⟨a, ha'⟩, b, (missed_frame h hbi).mp hb⟩
  · intro hnot
    unfold Permitted at hnot
    rw [not_and_or] at hnot
    rcases hnot with hmiss | hreg
    · push Not at hmiss
      obtain ⟨hi, j, hj, hreg⟩ := hmiss
      exact ⟨⟨j, (registering_frame h hj).mpr hreg⟩, i, hi⟩
    · push Not at hreg
      obtain ⟨hi, j, hj, hmiss⟩ := hreg
      exact ⟨⟨i, hi⟩, j, (missed_frame h hj).mpr hmiss⟩

end Waiting

/-! ## Threads of calls -/

section Threads

variable {ι : Type} [DecidableEq ι] (order : UnorderedMap Bytes Bytes → List (Bytes × Bytes))
  (calls : ι → List RouterCall) (st : RouterState)

/-- The threads are about to make their calls. -/
def startCalls : LockState ι LockSite RouterState :=
  .start (fun i => callsProg order (calls i)) st

/-- A permitted step of any thread. -/
def PermittedStep (s s' : LockState ι LockSite RouterState) : Prop :=
  ∃ i, LockStep LockSite.lock i s s' ∧ Permitted s i s'

/-- In a run of permitted steps no threads wait for each other. -/
theorem not_deadlocked_of_run {s : LockState ι LockSite RouterState}
    (h : Reachable PermittedStep (startCalls order calls st) s) :
    s.AllNest Nested ∧ ¬ s.Deadlocked LockSite.lock := by
  refine h.invariant (P := fun s => s.AllNest Nested ∧ ¬ s.Deadlocked LockSite.lock) ?_ ?_
  · have hnest := LockState.allNest_start (fun i => nests_callsProg order (calls i)) st
    refine ⟨hnest, fun hdead => ?_⟩
    obtain ⟨⟨i, hheld, -⟩, -⟩ := (deadlocked_iff hnest).mp hdead
    exact absurd hheld List.not_mem_nil
  · rintro s s' ⟨hnest, hs⟩ ⟨i, hstep, hpermitted⟩
    exact ⟨hstep.allNest hnest, fun hdead =>
      (deadlocked_iff_not_permitted hstep hnest hs).mp hdead hpermitted⟩

/-- **No lock-order deadlock**, whatever the threads call, as long as no URI is
missed while another thread registers the routes of the config, and no routes of
the config are registered while another thread has missed a URI: in a run of
such steps nothing is deadlocked, and the first step of another kind leads to a
deadlock. -/
theorem no_deadlock_iff :
    (∀ s, Reachable PermittedStep (startCalls order calls st) s →
      ¬ s.Deadlocked LockSite.lock ∧
        ∀ i s', LockStep LockSite.lock i s s' →
          (¬ s'.Deadlocked LockSite.lock ↔ Permitted s i s')) ∧
      ((∀ s, Reachable (SomeLockStep LockSite.lock) (startCalls order calls st) s →
          ¬ s.Deadlocked LockSite.lock) ↔
        ∀ s i s', Reachable (SomeLockStep LockSite.lock) (startCalls order calls st) s →
          LockStep LockSite.lock i s s' → Permitted s i s') := by
  refine ⟨fun s hs => ?_, fun h s i s' hs hstep => ?_, fun h s hs => ?_⟩
  · obtain ⟨hnest, hdead⟩ := not_deadlocked_of_run order calls st hs
    refine ⟨hdead, fun i s' hstep => ?_⟩
    rw [deadlocked_iff_not_permitted hstep hnest hdead, not_not]
  · have hnest : s.AllNest Nested := hs.invariant
      (LockState.allNest_start (fun i => nests_callsProg order (calls i)) st)
      fun _ _ hnest ⟨_, hstep⟩ => hstep.allNest hnest
    by_contra hnot
    exact h s' (hs.tail ⟨i, hstep⟩)
      ((deadlocked_iff_not_permitted hstep hnest (h s hs)).mpr hnot)
  · have hrun : Reachable (SomeLockStep LockSite.lock) (startCalls order calls st) s ∧
        Reachable PermittedStep (startCalls order calls st) s := by
      refine hs.invariant (P := fun s =>
        Reachable (SomeLockStep LockSite.lock) (startCalls order calls st) s ∧
          Reachable PermittedStep (startCalls order calls st) s) ⟨.refl, .refl⟩ ?_
      rintro s s' ⟨hs, hrun⟩ ⟨i, hstep⟩
      exact ⟨hs.tail ⟨i, hstep⟩, hrun.tail ⟨i, hstep, h s i s' hs hstep⟩⟩
    exact (not_deadlocked_of_run order calls st hrun.2).2

end Threads

/-! ## Two threads -/

/-- A router with one location in its config, before its routes are registered. -/
def unregisteredRouter : RouterState :=
  ⟨Router.mk' [.mk ["handler", "echo"] (some [.mk ["location", "/echo"] none])] "", ⟨[], []⟩⟩

/-- One thread registers the routes of the config, the other looks up a URI. -/
def registrationAndLookup (b : Bool) : List RouterCall :=
  if b then [.getRouteHandler "/x"] else [.registerRoutesFromConfig]

/-- The thread that registers holds `config_lock_` and waits for
`route_map_lock_`, the other holds that and waits for `config_lock_`. -/
theorem registration_lookup_deadlock :
    ∃ s, Reachable (SomeLockStep LockSite.lock)
        (startCalls (fun _ => []) registrationAndLookup unregisteredRouter) s ∧
      s.Deadlocked LockSite.lock := by
  have h₀ : Reachable (SomeLockStep LockSite.lock) _
      (startCalls (fun _ => []) registrationAndLookup unregisteredRouter) := Reachable.refl
  have h₁ := h₀.tail ⟨false, .acquire rfl (by simp [startCalls, LockState.start])⟩
  have h₂ := h₁.tail ⟨false, .look rfl⟩
  have h₃ := h₂.tail ⟨true, @LockStep.acquire _ _ _ _ _ _ _ _ .getRouteHandler _ rfl (by decide)⟩
  have h₄ := h₃.tail ⟨true, .look rfl⟩
  have hnest := (h₄.invariant (P := LockState.AllNest Nested)
    (LockState.allNest_start (fun b => nests_callsProg _ (registrationAndLookup b)) _)
    fun _ _ hnest ⟨_, hstep⟩ => hstep.allNest hnest)
  refine ⟨_, h₄, (deadlocked_iff hnest).mpr ⟨⟨false, ?_, _, rfl⟩, true, ?_, _, rfl⟩⟩
  · exact List.mem_singleton_self _
  · exact List.mem_singleton_self _

end GittyUp
