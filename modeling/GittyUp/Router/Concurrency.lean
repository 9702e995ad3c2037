import GittyUp.Lib.Sections
import GittyUp.Router.Locks
import GittyUp.Router.Registration

/-!
# Concurrent use of the router (`router.cc`, `server_status_recorder.cc`)

Any number of threads call the public methods of one router. The methods lock a
mutex at a time where they change something: `route_map_lock_` guards the route
map and the recorder's list of prefixes, `header_lock_` the default headers, and
`response_list_lock_` the recorded responses.

- `router_serializable`: when all calls have returned, the router and the recorder
  are as if the registrations, headers and records had been made one after another,
  those of a thread in its order.
- `prefixes_agree`: whenever `route_map_lock_` is free, the list of prefixes and the
  route map agree.
-/

namespace GittyUp

open Lib

/-! ## What the methods change -/

/-- `router::register_default_header`. -/
def registerDefaultHeader (st : RouterState) (name value : Bytes) : RouterState :=
  { st with router := { st.router with headers := st.router.headers.insert name value } }

/-- A change of what the threads share. -/
inductive RouterAction where
  | register (uri handlerName : Bytes)
  | setHeader (name value : Bytes)
  | record (uri : Bytes) (code : Nat)
  deriving DecidableEq, Repr

/-- The change made by a thread that is alone. -/
def RouterAction.apply : RouterAction → RouterState → RouterState
  | .register uri handlerName, st => registerRoute st uri handlerName
  | .setHeader name value, st => registerDefaultHeader st name value
  | .record uri code, st => { st with recorder := st.recorder.requestRecorder uri code }

/-- The mutex that guards what is changed. -/
def RouterAction.lock : RouterAction → RouterLock
  | .register _ _ => .routeMapLock
  | .setHeader _ _ => .headerLock
  | .record _ _ => .responseListLock

/-- Two states agree on what the mutex guards. The list of prefixes is changed
inside of `route_map_lock_`, so that its own mutex guards nothing more. -/
def RouterLock.Same : RouterLock → RouterState → RouterState → Prop
  | .routeMapLock, st, st' => st.router.routeMap = st'.router.routeMap ∧
      st.recorder.prefixHandlerList = st'.recorder.prefixHandlerList
  | .headerLock, st, st' => st.router.headers = st'.router.headers
  | .responseListLock, st, st' => st.recorder.urlResponseList = st'.recorder.urlResponseList
  | _, _, _ => True

theorem RouterLock.same_equivalence (m : RouterLock) : Equivalence m.Same := by
  cases m with
  | routeMapLock => exact ⟨fun _ => ⟨rfl, rfl⟩, fun h => ⟨h.1.symm, h.2.symm⟩,
      fun h h' => ⟨h.1.trans h'.1, h.2.trans h'.2⟩⟩
  | headerLock => exact ⟨fun _ => rfl, Eq.symm, Eq.trans⟩
  | responseListLock => exact ⟨fun _ => rfl, Eq.symm, Eq.trans⟩
  | configLock | logLock | prefixListLock =>
    exact ⟨fun _ => trivial, fun _ => trivial, fun _ _ => trivial⟩

/-- A registration depends on the route map and adds to the list of prefixes. -/
theorem registerRoute_same {st st' : RouterState} (h : RouterLock.routeMapLock.Same st st')
    (uri handlerName : Bytes) : RouterLock.routeMapLock.Same
      (registerRoute st uri handlerName) (registerRoute st' uri handlerName) := by
  obtain ⟨hmap, hlist⟩ := h
  unfold registerRoute
  rw [hmap]
  by_cases huri : uri ∉ st'.router.routeMap
  · rw [if_pos huri, if_pos huri]
    exact ⟨rfl, congrArg (· ++ [(uri, handlerName)]) hlist⟩
  · rw [if_neg huri, if_neg huri]
    exact ⟨hmap, hlist⟩

/-- It changes nothing else. -/
theorem registerRoute_other {m : RouterLock} (hm : m ≠ .routeMapLock) (st : RouterState)
    (uri handlerName : Bytes) : m.Same (registerRoute st uri handlerName) st := by
  unfold registerRoute
  by_cases huri : uri ∉ st.router.routeMap
  · rw [if_pos huri]
    cases m with
    | routeMapLock => exact absurd rfl hm
    | headerLock | responseListLock => rfl
    | configLock | logLock | prefixListLock => trivial
  · rw [if_neg huri]
    exact m.same_equivalence.refl st

theorem RouterAction.apply_other (a : RouterAction) (m : RouterLock) (st : RouterState)
    (hm : m ≠ a.lock) : m.Same (a.apply st) st := by
  cases a with
  | register uri handlerName => exact registerRoute_other hm st uri handlerName
  | setHeader name value =>
    cases m with
    | headerLock => exact absurd rfl hm
    | routeMapLock => exact ⟨rfl, rfl⟩
    | responseListLock => rfl
    | configLock | logLock | prefixListLock => trivial
  | record uri code =>
    cases m with
    | responseListLock => exact absurd rfl hm
    | routeMapLock => exact ⟨rfl, rfl⟩
    | headerLock => rfl
    | configLock | logLock | prefixListLock => trivial

theorem RouterAction.apply_same (a : RouterAction) (st st' : RouterState)
    (h : a.lock.Same st st') : a.lock.Same (a.apply st) (a.apply st') := by
  cases a with
  | register uri handlerName => exact registerRoute_same h uri handlerName
  | setHeader name value => exact congrArg (AList.insert name value) h
  | record uri code => exact congrArg (· ++ [(uri, code)]) h

/-- What is guarded by which mutex. -/
def routerGuarding : Guarding RouterLock RouterState RouterAction where
  same := RouterLock.Same
  equivalence := RouterLock.same_equivalence
  act := RouterAction.apply
  mutex := RouterAction.lock
  act_other := RouterAction.apply_other
  act_same := RouterAction.apply_same

/-! ## The methods perform their actions -/

/-- The changes that a call makes. -/
def RouterCall.actions (config : NginxConfig) : RouterCall → List RouterAction
  | .registerRoute uri handlerName => [.register uri handlerName]
  | .registerRoutesFromConfig =>
    (config.flatMap statementRoutes).map fun route => .register route.1 route.2
  | .registerDefaultHeader name value => [.setHeader name value]
  | .routeRequest uri (some code) => [.record uri code]
  | .getRouteHandler _ | .getHeader _ | .routeRequest _ none => []

/-- What never changes. -/
def RouterFixed (config : NginxConfig) (root : Bytes) (st : RouterState) : Prop :=
  st.router.config = config ∧ st.router.serverRoot = root

/-- A thread that holds `config_lock_` or `log_lock_`, as `outer` says, and no
other mutex. -/
def Inside (outer : List RouterLock) (entered : Guarding.Entered RouterLock RouterState) : Prop :=
  (∀ m, entered m ≠ none ↔ m ∈ outer) ∧ outer ⊆ [.configLock, .logLock]

section Methods

variable {config : NginxConfig} {root : Bytes} {outer : List RouterLock}
  {entered : Guarding.Entered RouterLock RouterState} {todo : List RouterAction}

/-- The program performs the actions, whatever else the thread knows. -/
def RouterPerforms (config : NginxConfig) (root : Bytes) (outer : List RouterLock)
    (todo : List RouterAction) (k : RouterProg) : Prop :=
  ∀ entered, Inside outer entered →
    routerGuarding.Performs LockSite.lock (RouterFixed config root) entered todo k

/-- A section that only looks. -/
theorem performs_look (site : LockSite) {k : RouterState → RouterProg}
    (hsite : site.lock ∉ outer)
    (hk : ∀ st, RouterPerforms config root outer todo (k st)) :
    RouterPerforms config root outer todo
      (.acquire site <| .look fun st => .release site (k st)) := by
  intro entered hin s hs s' hs' hknows
  have hnone : entered site.lock = none := not_not.mp fun h => hsite ((hin.1 _).mp h)
  refine ⟨s, s, Function.update_self _ _ _, .inl ⟨(routerGuarding.equivalence _).refl s, ?_⟩⟩
  rw [Function.update_idem, ← hnone, Function.update_eq_self]
  exact hk s' entered hin

/-- Registering a route, as one action. -/
theorem performs_registerRouteProg {k : RouterProg} (uri handlerName : Bytes)
    (hk : RouterPerforms config root outer todo k) :
    RouterPerforms config root outer (.register uri handlerName :: todo)
      (registerRouteProg uri handlerName k) := by
  intro entered hin s hs st _ hknows
  have hroute : RouterLock.routeMapLock ∉ outer := fun h => by simpa using hin.2 h
  have hprefix : RouterLock.prefixListLock ∉ outer := fun h => by simpa using hin.2 h
  have hst : RouterLock.routeMapLock.Same st s := hknows .routeMapLock s s rfl
  dsimp only
  by_cases huri : uri ∉ st.router.routeMap
  · rw [if_pos huri]
    intro s₁ hs₁ s₂ hs₂ hknows₂
    have h₂ : RouterLock.routeMapLock.Same s₂ s := hknows₂ .routeMapLock s s rfl
    refine ⟨hs₂, fun m hm => ?_, s₁, _, rfl, .inl ⟨trivial, ?_⟩⟩
    · -- only the list of prefixes changes
      cases m with
      | routeMapLock => contradiction
      | headerLock | responseListLock => rfl
      | configLock | logLock | prefixListLock => trivial
    intro s₃ hs₃ hknows₃
    have h₃ := hknows₃ .routeMapLock s _ rfl
    refine ⟨hs₃, fun m hm => ?_, s, _, rfl, .inr ⟨_, todo, rfl, rfl, ?_, hk _ ⟨fun m => ?_, hin.2⟩⟩⟩
    · -- and the route map
      cases m with
      | routeMapLock => contradiction
      | headerLock | responseListLock => rfl
      | configLock | logLock | prefixListLock => trivial
    · show RouterLock.routeMapLock.Same _ (registerRoute s uri handlerName)
      unfold registerRoute
      rw [if_pos (hst.1 ▸ huri)]
      exact ⟨congrArg (UnorderedMap.insertNew · uri handlerName) (h₃.1.trans h₂.1),
        h₃.2.trans (congrArg (· ++ [(uri, handlerName)]) h₂.2)⟩
    · have hm := hin.1 m
      cases m <;> simp_all [LockSite.lock]
  · rw [if_neg huri]
    refine ⟨s, _, rfl, .inr ⟨_, todo, rfl, rfl, ?_, hk _ ⟨fun m => ?_, hin.2⟩⟩⟩
    · show RouterLock.routeMapLock.Same _ (registerRoute s uri handlerName)
      unfold registerRoute
      rw [if_neg (hst.1 ▸ huri)]
      exact ⟨rfl, rfl⟩
    · have hm := hin.1 m
      cases m <;> simp_all [LockSite.lock]

theorem performs_registerRoutesProg {k : RouterProg} (routes : List (Bytes × Bytes))
    (hk : RouterPerforms config root outer todo k) :
    RouterPerforms config root outer
      (routes.map (fun route => .register route.1 route.2) ++ todo) (registerRoutesProg routes k) := by
  induction routes with
  | nil => exact hk
  | cons route routes ih => exact performs_registerRouteProg route.1 route.2 ih

/-- A section of a mutex that guards nothing, around a part of the program. -/
theorem performs_registerRoutesFromConfigProg {k : RouterProg}
    (hk : RouterPerforms config root [] todo k) :
    RouterPerforms config root []
      ((config.flatMap statementRoutes).map (fun route => .register route.1 route.2) ++ todo)
      (registerRoutesFromConfigProg k) := by
  intro entered hin s hs st hst _
  dsimp only
  rw [hst.1]
  have hinside : RouterPerforms config root [.configLock] todo
      (.release .registerRoutesFromConfig k) := by
    intro entered' hin'
    obtain ⟨⟨before, now⟩, he⟩ := Option.ne_none_iff_exists'.mp ((hin'.1 .configLock).mpr (by simp))
    refine ⟨before, now, he, .inl ⟨trivial, hk _ ⟨fun m => ?_, by simp⟩⟩⟩
    have hm := hin'.1 m
    cases m <;> simp_all [LockSite.lock]
  refine performs_registerRoutesProg _ hinside _ ⟨fun m => ?_, by simp⟩
  have hm := hin.1 m
  cases m <;> simp_all [LockSite.lock]

theorem performs_registerDefaultHeaderProg {k : RouterProg} (name value : Bytes)
    (hk : RouterPerforms config root [] todo k) :
    RouterPerforms config root [] (.setHeader name value :: todo)
      (registerDefaultHeaderProg name value k) := by
  intro entered hin s hs s₁ hs₁ hknows
  have h₁ : RouterLock.headerLock.Same s₁ s := hknows .headerLock s s rfl
  refine ⟨hs₁, fun m hm => ?_, s, _, rfl, .inr ⟨_, todo, rfl, rfl, ?_, hk _ ⟨fun m => ?_, hin.2⟩⟩⟩
  · cases m with
    | headerLock => contradiction
    | routeMapLock => exact ⟨rfl, rfl⟩
    | responseListLock => rfl
    | configLock | logLock | prefixListLock => trivial
  · exact congrArg (AList.insert name value) h₁
  · have hm := hin.1 m
    cases m <;> simp_all [LockSite.lock]

theorem performs_getHandlerConfigProg {k : RouterProg} (hconfig : .configLock ∉ outer)
    (hk : RouterPerforms config root outer todo k) :
    RouterPerforms config root outer todo (getHandlerConfigProg k) :=
  performs_look .getHandlerConfig hconfig fun _ => hk

theorem performs_getRouteHandlerProg {k : Option Bytes → RouterProg} (uri : Bytes)
    (hconfig : .configLock ∉ outer)
    (hk : ∀ handler, RouterPerforms config root outer todo (k handler)) :
    RouterPerforms config root outer todo (getRouteHandlerProg uri k) := by
  intro entered hin s hs st _ _
  have hroute : RouterLock.routeMapLock ∉ outer := fun h => by simpa using hin.2 h
  have hnone : entered .routeMapLock = none := not_not.mp fun h => hroute ((hin.1 _).mp h)
  dsimp only
  cases st.router.routeMap.lookup uri with
  | some handler =>
    refine ⟨s, s, rfl, .inl ⟨(routerGuarding.equivalence _).refl s, hk _ _ ⟨fun m => ?_, hin.2⟩⟩⟩
    have hm := hin.1 m
    cases m <;> simp_all [LockSite.lock]
  | none =>
    -- `get_handler_config` is called with the mutex held
    intro s₁ hs₁ st₁ _ _
    refine ⟨s₁, s₁, rfl, .inl ⟨trivial, fun st₂ _ _ => ?_⟩⟩
    refine ⟨s, s, rfl, .inl ⟨(routerGuarding.equivalence _).refl s, hk _ _ ⟨fun m => ?_, hin.2⟩⟩⟩
    have hm := hin.1 m
    cases m <;> simp_all [LockSite.lock]

theorem performs_longestPrefixMatchProg {k : Bytes → RouterProg}
    (order : UnorderedMap Bytes Bytes → List (Bytes × Bytes)) (uri : Bytes)
    (hroute : .routeMapLock ∉ outer) (hk : ∀ route, RouterPerforms config root outer todo (k route)) :
    RouterPerforms config root outer todo (longestPrefixMatchProg order uri k) :=
  performs_look .longestPrefixMatch hroute fun _ => hk _

/-- A section without a look. -/
theorem performs_empty {site : LockSite} {k : RouterProg} (hsite : site.lock ∉ outer)
    (hk : RouterPerforms config root outer todo k) :
    RouterPerforms config root outer todo (.acquire site <| .release site k) := by
  intro entered hin s hs
  have hnone : entered site.lock = none := not_not.mp fun h => hsite ((hin.1 _).mp h)
  refine ⟨s, s, Function.update_self _ _ _, .inl ⟨(routerGuarding.equivalence _).refl s, ?_⟩⟩
  rw [Function.update_idem, ← hnone, Function.update_eq_self]
  exact hk entered hin

theorem performs_handlerProg {k : RouterProg} (handlerClass : HandlerClass)
    (hk : RouterPerforms config root [] todo k) :
    RouterPerforms config root [] todo (handlerProg handlerClass k) := by
  cases handlerClass with
  | status => exact performs_empty (by simp) (performs_empty (by simp) (performs_empty (by simp) hk))
  | _ => exact hk

theorem performs_recordProg {k : RouterProg}
    (order : UnorderedMap Bytes Bytes → List (Bytes × Bytes)) (uri : Bytes) (code : Nat)
    (hk : RouterPerforms config root [] todo k) :
    RouterPerforms config root [] (.record uri code :: todo) (recordProg order uri code k) := by
  intro entered hin s hs s₁ hs₁ hknows
  have h₁ : RouterLock.responseListLock.Same s₁ s := hknows .responseListLock s s rfl
  -- the log line, with `log_lock_` held, and the default headers
  have hlog : RouterPerforms config root [] todo (.acquire .routeRequest <|
      longestPrefixMatchProg order uri fun route => getRouteHandlerProg route fun _ =>
      .release .routeRequest <|
      .acquire .applyDefaultHeaders <| .look fun _ => .release .applyDefaultHeaders k) := by
    have hinside : RouterPerforms config root [.logLock] todo (.release .routeRequest <|
        .acquire .applyDefaultHeaders <| .look fun _ => .release .applyDefaultHeaders k) := by
      intro entered' hin'
      obtain ⟨⟨before, now⟩, he⟩ := Option.ne_none_iff_exists'.mp ((hin'.1 .logLock).mpr (by simp))
      refine ⟨before, now, he, .inl ⟨trivial, ?_⟩⟩
      refine performs_look .applyDefaultHeaders (by simp) (fun _ => hk) _ ⟨fun m => ?_, by simp⟩
      have hm := hin'.1 m
      cases m <;> simp_all [LockSite.lock]
    intro entered hin s hs
    refine performs_longestPrefixMatchProg order uri (by simp) (fun route =>
      performs_getRouteHandlerProg route (by simp) fun _ => hinside) _ ⟨fun m => ?_, by simp⟩
    have hm := hin.1 m
    cases m <;> simp_all [LockSite.lock]
  refine ⟨hs₁, fun m hm => ?_, s, _, rfl, .inr ⟨_, todo, rfl, rfl, ?_, hlog _ ⟨fun m => ?_, hin.2⟩⟩⟩
  · cases m with
    | responseListLock => contradiction
    | routeMapLock => exact ⟨rfl, rfl⟩
    | headerLock => rfl
    | configLock | logLock | prefixListLock => trivial
  · exact congrArg (· ++ [(uri, code)]) h₁
  · have hm := hin.1 m
    cases m <;> simp_all [LockSite.lock]

/-- Every call performs its actions. -/
theorem performs_call {k : RouterProg} (order : UnorderedMap Bytes Bytes → List (Bytes × Bytes))
    (call : RouterCall) (hk : RouterPerforms config root [] todo k) :
    RouterPerforms config root [] (call.actions config ++ todo) (call.prog order k) := by
  cases call with
  | registerRoute uri handlerName => exact performs_registerRouteProg uri handlerName hk
  | registerRoutesFromConfig => exact performs_registerRoutesFromConfigProg hk
  | registerDefaultHeader name value => exact performs_registerDefaultHeaderProg name value hk
  | getRouteHandler uri => exact performs_getRouteHandlerProg uri (by simp) fun _ => hk
  | getHeader name => exact performs_look .getHeader (by simp) fun _ => hk
  | routeRequest uri code =>
    show RouterPerforms config root [] _ (routeRequestProg order uri code k)
    unfold routeRequestProg
    refine performs_longestPrefixMatchProg order uri (by simp) fun route => ?_
    refine performs_getRouteHandlerProg route (by simp) fun handler => ?_
    refine performs_getHandlerConfigProg (by simp) ?_
    refine performs_handlerProg (handlerClass (handler.getD "")).1 ?_
    cases code with
    | some code => exact performs_recordProg order uri code hk
    | none => exact hk

theorem performs_callsProg (order : UnorderedMap Bytes Bytes → List (Bytes × Bytes))
    (calls : List RouterCall) : RouterPerforms config root []
      (calls.flatMap (RouterCall.actions config)) (callsProg order calls) := by
  induction calls with
  | nil => exact fun entered hin => ⟨rfl, fun m => not_not.mp fun h => by simpa using (hin.1 m).mp h⟩
  | cons call calls ih => exact performs_call order call ih

end Methods

/-! ## Two threads -/

/-- Both threads register a handler for one URI; one sets a header, and the other
one serves a request. -/
def raceCalls : Bool → List RouterCall
  | true => [.registerRoute "/a" "echo", .registerDefaultHeader "Server" "gitty"]
  | false => [.registerRoute "/a" "status", .routeRequest "/a" (some 200)]

def raceBegin : LockState Bool LockSite RouterState :=
  LockState.start (fun i => callsProg (fun m => m.entries.map fun e => (e.1, e.2)) (raceCalls i))
    ⟨Router.mk' [] "/root", ⟨[], []⟩⟩

/-- The threads after a schedule. -/
def raceRun (schedule : List Bool) : Option (LockState Bool LockSite RouterState) :=
  schedule.foldlM (LockState.move LockSite.lock) raceBegin

/-- The one thread registers first; the other one serves its request while the
header is set. -/
def raceSchedule : List Bool :=
  List.replicate 7 true ++ List.replicate 20 false ++ List.replicate 3 true ++
    List.replicate 6 false

theorem exists_of_raceRun {P : LockState Bool LockSite RouterState → Prop} [DecidablePred P]
    (schedule : List Bool) (h : (raceRun schedule).any (fun s => P s) = true) :
    ∃ s, Reachable (SomeLockStep LockSite.lock) raceBegin s ∧ P s := by
  obtain ⟨s, hrun, hP⟩ := (Option.any_eq_true _ _).mp h
  exact ⟨s, LockState.reachable_of_schedule hrun, of_decide_eq_true hP⟩

/-! ## Whatever the interleaving -/

section Runs

variable {ι : Type} [DecidableEq ι] {order : UnorderedMap Bytes Bytes → List (Bytes × Bytes)}
  {calls : ι → List RouterCall} {st : RouterState} {s : LockState ι LockSite RouterState}

theorem RouterAction.apply_fixed (a : RouterAction) (st : RouterState) :
    (a.apply st).router.config = st.router.config ∧
      (a.apply st).router.serverRoot = st.router.serverRoot := by
  cases a with
  | register uri handlerName =>
    show (registerRoute st uri handlerName).router.config = _ ∧
      (registerRoute st uri handlerName).router.serverRoot = _
    unfold registerRoute
    by_cases huri : uri ∉ st.router.routeMap
    · rw [if_pos huri]
      exact ⟨rfl, rfl⟩
    · rw [if_neg huri]
      exact ⟨rfl, rfl⟩
  | setHeader name value => exact ⟨rfl, rfl⟩
  | record uri code => exact ⟨rfl, rfl⟩

omit [DecidableEq ι] in
theorem replay_fixed (history : List (ι × RouterAction)) (st : RouterState) :
    RouterFixed st.router.config st.router.serverRoot (routerGuarding.replay history st) := by
  induction history generalizing st with
  | nil => exact ⟨rfl, rfl⟩
  | cons a history ih =>
    have hnext := ih (a.2.apply st)
    rwa [(a.2.apply_fixed st).1, (a.2.apply_fixed st).2] at hnext

/-- Nothing is left out of what the mutexes guard. -/
theorem RouterState.ext_same {st st' : RouterState}
    (hfixed : RouterFixed st'.router.config st'.router.serverRoot st)
    (hsame : ∀ m : RouterLock, m.Same st st') : st = st' := by
  obtain ⟨⟨config, root, routeMap, headers⟩, ⟨urlResponseList, prefixHandlerList⟩⟩ := st
  obtain ⟨⟨config', root', routeMap', headers'⟩, ⟨urlResponseList', prefixHandlerList'⟩⟩ := st'
  obtain ⟨rfl, rfl⟩ : config = config' ∧ root = root' := hfixed
  obtain ⟨rfl, rfl⟩ : routeMap = routeMap' ∧ prefixHandlerList = prefixHandlerList' :=
    hsame .routeMapLock
  obtain rfl : headers = headers' := hsame .headerLock
  obtain rfl : urlResponseList = urlResponseList' := hsame .responseListLock
  rfl

/-- **The calls are as good as made one after another**: when all threads are
through, the router and the recorder are what some order of the registrations,
headers and records makes of them, in which those of each thread stand in the
order of its calls. -/
theorem router_serializable
    (h : Reachable (SomeLockStep LockSite.lock)
      (LockState.start (fun i => callsProg order (calls i)) st) s)
    (hdone : ∀ i, s.prog i = .done) :
    ∃ history : List (ι × RouterAction),
      (∀ i, LockState.actionsOf history i =
        (calls i).flatMap (RouterCall.actions st.router.config)) ∧
      s.shared = history.foldl (fun st a => a.2.apply st) st := by
  obtain ⟨hfixed, history, -, hall, hfree⟩ := LockState.exists_history
    (I := RouterFixed st.router.config st.router.serverRoot) (G := routerGuarding) ⟨rfl, rfl⟩
    (fun i => performs_callsProg order (calls i) _ ⟨by simp, by simp⟩) h
  refine ⟨history, fun i => (hall i (hdone i)).1, ?_⟩
  have hreplay := replay_fixed history st
  show s.shared = routerGuarding.replay history st
  refine RouterState.ext_same ?_ fun m => ?_
  · rwa [hreplay.1, hreplay.2]
  · exact hfree m fun i site hsite => by simp [(hall i (hdone i)).2] at hsite

/-- Of two threads that register handlers for one URI, the first one wins. -/
theorem router_serializable_race : ∃ s : LockState Bool LockSite RouterState,
    s.shared.recorder.prefixHandlerList = [(lit "/a", lit "echo")] ∧
      s.shared.recorder.urlResponseList = [(lit "/a", 200)] ∧
      ∃ history : List (Bool × RouterAction),
        (∀ i, LockState.actionsOf history i = (raceCalls i).flatMap (RouterCall.actions [])) ∧
        s.shared = history.foldl (fun st a => a.2.apply st) ⟨Router.mk' [] "/root", ⟨[], []⟩⟩ := by
  obtain ⟨s, hs, hdone, hlist, hrecords⟩ := exists_of_raceRun
    (P := fun s => (∀ i, s.prog i = .done) ∧
      s.shared.recorder.prefixHandlerList = [(lit "/a", lit "echo")] ∧
      s.shared.recorder.urlResponseList = [(lit "/a", 200)]) raceSchedule (by decide +kernel)
  exact ⟨s, hlist, hrecords, router_serializable hs hdone⟩

/-- The routes registered in a history. -/
def registeredIn (history : List (ι × RouterAction)) : List (Bytes × Bytes) :=
  history.filterMap fun a =>
    match a.2 with
    | .register uri handlerName => some (uri, handlerName)
    | _ => none

omit [DecidableEq ι] in
/-- A history keeps the route map and the list of prefixes together. -/
theorem RouterState.Agrees.replay {routes : List (Bytes × Bytes)} (hst : st.Agrees routes)
    (history : List (ι × RouterAction)) :
    (routerGuarding.replay history st).Agrees (routes ++ registeredIn history) := by
  induction history generalizing st routes with
  | nil => rwa [registeredIn, List.filterMap_nil, List.append_nil]
  | cons a history ih =>
    obtain ⟨i, a⟩ := a
    cases a with
    | register uri handlerName =>
      have hnext := ih (hst.registerRoute uri handlerName)
      rwa [List.append_assoc] at hnext
    | setHeader name value =>
      have hnext : (registerDefaultHeader st name value).Agrees routes := hst
      exact ih hnext
    | record uri code =>
      have hnext : ((RouterAction.record uri code).apply st).Agrees routes := hst
      exact ih hnext

/-- **The list of prefixes and the route map agree** whenever no thread is inside
of `route_map_lock_`, with any calls of any threads under way: no URI is listed
twice, the URIs listed are those of the map, and each is listed with the handler
that `get_route_handler` returns for it, and that some thread was to register. -/
theorem prefixes_agree {config : NginxConfig} {root : Bytes}
    (h : Reachable (SomeLockStep LockSite.lock)
      (LockState.start (fun i => callsProg order (calls i)) ⟨Router.mk' config root, ⟨[], []⟩⟩) s)
    (hfree : ∀ i, ∀ site ∈ s.held i, site.lock ≠ .routeMapLock) :
    (s.shared.recorder.prefixHandlerList.map Prod.fst).Nodup ∧
      (∀ uri, uri ∈ s.shared.recorder.prefixHandlerList.map Prod.fst ↔
        uri ∈ s.shared.router.routeMap) ∧
      ∀ pair ∈ s.shared.recorder.prefixHandlerList,
        getRouteHandler s.shared.router pair.1 = some pair.2 ∧
        ∃ i, .register pair.1 pair.2 ∈ (calls i).flatMap (RouterCall.actions config) := by
  obtain ⟨-, history, hpre, -, hsame⟩ := LockState.exists_history
    (I := RouterFixed config root) (G := routerGuarding) ⟨rfl, rfl⟩
    (fun i => performs_callsProg order (calls i) _ ⟨by simp, by simp⟩) h
  obtain ⟨hmap, hlist⟩ := hsame .routeMapLock hfree
  have hinit : RouterState.Agrees ⟨Router.mk' config root, ⟨[], []⟩⟩ [] :=
    UnorderedMap.Logged.empty
  have hagrees := hinit.replay history
  rw [List.nil_append, RouterState.Agrees, ← hmap, ← hlist] at hagrees
  refine ⟨hagrees.nodup, fun uri => hagrees.mem_iff, fun pair hpair => ?_⟩
  have hfirst := hagrees.first pair hpair
  refine ⟨getRouteHandler_of_lookup ((hagrees.lookup _).trans hfirst), ?_⟩
  obtain ⟨before, after, hsplit, -⟩ := List.lookup_eq_some_iff.mp hfirst
  have hmem : pair ∈ registeredIn history := by
    rw [hsplit]
    simp
  obtain ⟨⟨i, a⟩, ha, heq⟩ := List.mem_filterMap.mp hmem
  refine ⟨i, (hpre i).subset ?_⟩
  cases a with
  | register uri handlerName =>
    obtain rfl := Option.some.inj heq
    exact List.mem_map.mpr ⟨_, List.mem_filter.mpr ⟨ha, by simp⟩, rfl⟩
  | setHeader name value => contradiction
  | record uri code => contradiction

/-- While the header is being set and the request is being logged. -/
theorem prefixes_agree_race : ∃ s : LockState Bool LockSite RouterState,
    s.held true = [.registerDefaultHeader] ∧ s.held false = [.routeRequest] ∧
      ∀ pair ∈ s.shared.recorder.prefixHandlerList,
        getRouteHandler s.shared.router pair.1 = some pair.2 ∧
        ∃ i, .register pair.1 pair.2 ∈ (raceCalls i).flatMap (RouterCall.actions []) := by
  obtain ⟨s, hs, hfree, htrue, hfalse⟩ := exists_of_raceRun
    (P := fun s => (∀ i, ∀ site ∈ s.held i, site.lock ≠ .routeMapLock) ∧
      s.held true = [.registerDefaultHeader] ∧ s.held false = [.routeRequest])
    (List.replicate 7 true ++ List.replicate 16 false ++ List.replicate 2 true) (by decide +kernel)
  exact ⟨s, htrue, hfalse, (prefixes_agree hs hfree).2.2⟩

end Runs

end GittyUp
