import GittyUp.Router.Selection

/-!
# Registered prefixes and the route map (`register_route`, `prefix_recorder`)

A route is stored twice: in the route map, where `get_route_handler` finds it,
and in the list of prefixes that the status page shows. `prefixes_registered`:
however routes are registered, one at a time or all those of the config, again
and again, the list has the URIs of the map in order of first registration, each
with the handler that the map has for it.
-/

namespace GittyUp

open Lib

/-- A call that registers routes. -/
inductive RegistrationCall where
  | registerRoute (uri handlerName : Bytes)
  | registerRoutesFromConfig

/-- The call on a router; `none` where it reads past the end of a token list. -/
def RegistrationCall.run : RegistrationCall → RouterState → Option RouterState
  | .registerRoute uri handlerName, st => some (GittyUp.registerRoute st uri handlerName)
  | .registerRoutesFromConfig, st => GittyUp.registerRoutesFromConfig st

/-- Calls one after the other. -/
def runRegistrations : List RegistrationCall → RouterState → Option RouterState
  | [], st => some st
  | call :: calls, st => do
    let st ← call.run st
    runRegistrations calls st

/-- The routes that a call registers on a router with the config, in order. -/
def RegistrationCall.routes (config : NginxConfig) : RegistrationCall → List (Bytes × Bytes)
  | .registerRoute uri handlerName => [(uri, handlerName)]
  | .registerRoutesFromConfig => config.flatMap statementRoutes

/-- The registrations of a sequence of calls. -/
def registrations (config : NginxConfig) (calls : List RegistrationCall) : List (Bytes × Bytes) :=
  calls.flatMap (RegistrationCall.routes config)

/-! ## Calls register their routes -/

theorem RegistrationCall.run_eq (call : RegistrationCall) (st : RouterState)
    (h : HandlersComplete st.router.config) :
    call.run st = some (registerAll (call.routes st.router.config) st) := by
  cases call with
  | registerRoute uri handlerName => rfl
  | registerRoutesFromConfig => exact registerHandlers_eq st.router.config h st

theorem runRegistrations_eq (calls : List RegistrationCall) (st : RouterState)
    (h : HandlersComplete st.router.config) :
    runRegistrations calls st = some (registerAll (registrations st.router.config calls) st) := by
  induction calls generalizing st with
  | nil => rfl
  | cons call calls ih =>
    have hconfig := registerAll_config (call.routes st.router.config) st
    rw [runRegistrations, call.run_eq st h]
    show runRegistrations calls _ = _
    rw [ih _ (by rwa [hconfig]), hconfig, ← registerAll_append]
    rfl

/-! ## Map and list stay together -/

/-- The route map and the prefix list were filled together from `routes`. -/
def RouterState.Agrees (st : RouterState) (routes : List (Bytes × Bytes)) : Prop :=
  UnorderedMap.Logged routes st.router.routeMap st.recorder.prefixHandlerList

/-- One registration. -/
theorem RouterState.Agrees.registerRoute {st : RouterState} {routes : List (Bytes × Bytes)}
    (h : st.Agrees routes) (uri handlerName : Bytes) :
    (GittyUp.registerRoute st uri handlerName).Agrees (routes ++ [(uri, handlerName)]) := by
  unfold GittyUp.registerRoute
  by_cases hmem : uri ∈ st.router.routeMap
  · rw [if_neg (not_not.mpr hmem)]
    exact h.keep hmem handlerName
  · rw [if_pos hmem]
    exact h.insert hmem handlerName

/-- A whole history of them. -/
theorem RouterState.Agrees.registerAll {st : RouterState} {routes : List (Bytes × Bytes)}
    (h : st.Agrees routes) (more : List (Bytes × Bytes)) :
    (GittyUp.registerAll more st).Agrees (routes ++ more) := by
  induction more generalizing st routes with
  | nil => rwa [List.append_nil]
  | cons route more ih =>
    have hnext := ih (h.registerRoute route.1 route.2)
    rwa [List.append_assoc] at hnext

/-- **Registered prefixes and the route map agree** after every sequence of calls: no
URI is listed twice, the URIs listed are those of the map in order of first
registration, and each is listed with the handler of its first registration, which
`get_route_handler` returns for it. -/
theorem prefixes_registered (config : NginxConfig) (root : Bytes) (h : HandlersComplete config)
    (calls : List RegistrationCall) :
    ∃ st, runRegistrations calls ⟨Router.mk' config root, ⟨[], []⟩⟩ = some st ∧
      (st.recorder.prefixHandlerList.map Prod.fst).Nodup ∧
      (∀ uri, uri ∈ st.recorder.prefixHandlerList.map Prod.fst ↔ uri ∈ st.router.routeMap) ∧
      st.recorder.prefixHandlerList.map Prod.fst =
        ((registrations config calls).map Prod.fst).eraseDups ∧
      ∀ pair ∈ st.recorder.prefixHandlerList,
        getRouteHandler st.router pair.1 = some pair.2 ∧
          (registrations config calls).lookup pair.1 = some pair.2 := by
  have hrun := runRegistrations_eq calls ⟨Router.mk' config root, ⟨[], []⟩⟩ h
  change _ = some (registerAll (registrations config calls) _) at hrun
  refine ⟨_, hrun, ?_⟩
  have hinit : RouterState.Agrees ⟨Router.mk' config root, ⟨[], []⟩⟩ [] :=
    UnorderedMap.Logged.empty
  have hagrees := hinit.registerAll (registrations config calls)
  rw [List.nil_append] at hagrees
  refine ⟨hagrees.nodup, fun uri => hagrees.mem_iff, hagrees.keys, fun pair hpair => ?_⟩
  have hfirst := hagrees.first pair hpair
  refine ⟨getRouteHandler_of_lookup ?_, hfirst⟩
  rw [hagrees.lookup, hfirst]

/-- The config is loaded between two calls for the URI that it registers as well. -/
theorem prefixes_registered_echo :
    ∃ st, runRegistrations
        [.registerRoute "/b" "meme", .registerRoutesFromConfig, .registerRoute "/a" "status"]
        ⟨Router.mk' [.mk ["handler", "echo"] (some [.mk ["location", "/a"] none])] [],
          ⟨[], []⟩⟩ = some st ∧
      (st.recorder.prefixHandlerList.map Prod.fst).Nodup ∧
      (∀ uri, uri ∈ st.recorder.prefixHandlerList.map Prod.fst ↔ uri ∈ st.router.routeMap) ∧
      st.recorder.prefixHandlerList.map Prod.fst =
        ((registrations [.mk ["handler", "echo"] (some [.mk ["location", "/a"] none])]
          [.registerRoute "/b" "meme", .registerRoutesFromConfig,
            .registerRoute "/a" "status"]).map Prod.fst).eraseDups ∧
      ∀ pair ∈ st.recorder.prefixHandlerList,
        getRouteHandler st.router pair.1 = some pair.2 ∧
          (registrations [.mk ["handler", "echo"] (some [.mk ["location", "/a"] none])]
            [.registerRoute "/b" "meme", .registerRoutesFromConfig,
              .registerRoute "/a" "status"]).lookup pair.1 = some pair.2 := by
  refine prefixes_registered [.mk ["handler", "echo"] (some [.mk ["location", "/a"] none])] []
    ?_ [.registerRoute "/b" "meme", .registerRoutesFromConfig, .registerRoute "/a" "status"]
  intro s hs name child hblock l hl _
  obtain rfl := List.mem_singleton.mp hs
  obtain rfl := Option.some.inj hblock.2.2
  obtain rfl := List.mem_singleton.mp hl
  exact ⟨_, rfl⟩

end GittyUp
