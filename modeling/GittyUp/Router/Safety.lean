import GittyUp.Proxy.Upstream
import GittyUp.Router.Handlers
import GittyUp.Server.Main

/-!
# Which configs are safe to serve

The router and the handlers index token lists by the literals 0 and 1. The
parser guarantees the first token only. `noCrash_iff`: what remains to be asked
of the statements of the handler blocks.
-/

namespace GittyUp

open Lib

/-! ## The constructors -/

/-- The loop of `meme_handler::parse_config`: `path_to_memes_` and
`path_to_meme_templates_`. -/
def memePathsLoop (rootPath : Bytes) : NginxConfig → Bytes × Bytes → Bytes × Bytes
  | [], paths => paths
  | statement :: rest, paths =>
    match statement.tokens with
    | [keyword, path] =>
      if keyword = lit "memePath" then memePathsLoop rootPath rest (rootPath ++ path, paths.2)
      else if keyword = lit "memeTemplatePath" then
        memePathsLoop rootPath rest (paths.1, rootPath ++ path)
      else memePathsLoop rootPath rest paths
    | _ => memePathsLoop rootPath rest paths

/-- A handler, with what its constructor has read. -/
inductive RouteHandler where
  | echo
  | staticFile (path : Bytes)
  | status
  | proxy (handler : ReverseProxyHandler)
  | meme (memes templates : Bytes)
  | health
  | default

/-- The `create_handler` of each class; `none` where the constructor reads past
the end of a token list or dereferences a null config. -/
def createHandler (stalePort : Int) (rootPath : Bytes) :
    HandlerClass → Option NginxConfig → Option RouteHandler
  | .echo, _ => some .echo
  | .staticFile, config => (staticPath config rootPath).map .staticFile
  | .status, _ => some .status
  | .proxy, config => (ReverseProxyHandler.mk' stalePort config).map .proxy
  | .meme, config => config.map fun config =>
      let paths := memePathsLoop rootPath config ("", "")
      .meme paths.1 paths.2
  | .health, _ => some .health
  | .default, _ => some .default

/-- `router::select_handler`, with the constructor. -/
def selectRouteHandler (stalePort : Int) (r : Router) (order : List (Bytes × Bytes))
    (uri : Bytes) : Option RouteHandler := do
  let (handlerClass, config) ← selectHandler r order uri
  createHandler stalePort r.serverRoot handlerClass config

/-! ## Safety -/

/-- No access goes wrong when the router is created from the config, and when it
looks up a handler config, runs `validProxy` and chooses and constructs a
handler for the URI. -/
structure NoCrash (config : NginxConfig) (serverRoot uri : Bytes) (recorder : StatusRecorder) :
    Prop where
  creation : createRouter config serverRoot recorder ≠ none
  lookup : ∀ st, createRouter config serverRoot recorder = some (some st) →
    ∀ name, getHandlerConfig st.router name ≠ none
  proxyCheck : ∀ st, createRouter config serverRoot recorder = some (some st) →
    ∀ proxyConfig, getHandlerConfig st.router "proxy" = some (some proxyConfig) →
      validProxy uri proxyConfig ≠ none
  routeHandler : ∀ st, createRouter config serverRoot recorder = some (some st) →
    getRouteHandler st.router uri ≠ none
  selection : ∀ st, createRouter config serverRoot recorder = some (some st) →
    ∀ order, st.router.routeMap.IteratedAs order →
      ∀ stalePort, selectRouteHandler stalePort st.router order uri ≠ none

/-- `statement` is a block `router { ... }`. -/
def IsRouter (statement : NginxConfigStatement) (child : NginxConfig) : Prop :=
  statement.tokens[0]? = some (lit "router") ∧ statement.childBlock = some child

/-- `child` is the last router block of the config. -/
def RouterBlock (config child : NginxConfig) : Prop := LastSuch IsRouter config child

/-- The statements that are read with two tokens have them: the locations of the
handlers, and, if the URI is routed to the proxy, the statements of the proxy's
block. -/
def TokensComplete (config : NginxConfig) (uri : Bytes) : Prop :=
  ∀ c, RouterBlock config c → HandlersComplete c ∧
    (RoutesTo c uri "proxy" → ∀ child, LastBlock c "proxy" child →
      StatementsComplete "root" child ∧ StatementsComplete "port" child)

/-! ## Creating the router -/

/-- The scan finds the last `router` block. -/
theorem routerConfigLoop_spec {config : NginxConfig} (h : BlocksNamed config)
    (output : Option NginxConfig) : ∃ result, routerConfigLoop config output = some result ∧
      ∀ c, result = some c ↔ RouterBlock config c ∨
        output = some c ∧ ∀ s ∈ config, ∀ c', ¬ IsRouter s c' := by
  induction config generalizing output with
  | nil => exact ⟨output, rfl, fun c => by simp [RouterBlock, LastSuch]⟩
  | cons s config ih =>
    obtain ⟨hs, hconfig⟩ := blocksNamed_cons.mp h
    -- a statement that is no router block is passed over
    have pass (hnot : ∀ c', ¬ IsRouter s c') (c : NginxConfig) :
        (RouterBlock config c ∨ output = some c ∧ ∀ s' ∈ config, ∀ c', ¬ IsRouter s' c') ↔
          (RouterBlock (s :: config) c ∨
            output = some c ∧ ∀ s' ∈ s :: config, ∀ c', ¬ IsRouter s' c') := by
      simp only [RouterBlock, lastSuch_cons, List.forall_mem_cons, hnot, not_false_eq_true,
        implies_true, true_and, false_and, or_false]
    rw [routerConfigLoop]
    cases hchild : s.childBlock with
    | none =>
      obtain ⟨result, hrun, hresult⟩ := ih hconfig output
      refine ⟨result, hrun, fun c => (hresult c).trans (pass ?_ c)⟩
      rintro c' ⟨-, hc'⟩
      simp [hchild] at hc'
    | some child =>
      obtain ⟨keyword, hkey⟩ := hs child hchild
      simp only [hkey, Option.bind_eq_bind, Option.bind_some]
      split_ifs with hrouter
      · obtain ⟨result, hrun, hresult⟩ := ih hconfig (some child)
        have hs : IsRouter s child := ⟨hrouter ▸ hkey, hchild⟩
        have hsame (c : NginxConfig) : IsRouter s c ↔ child = c :=
          ⟨fun h => Option.some.inj (hchild.symm.trans h.2), fun h => h ▸ hs⟩
        have hsome : ¬ ∀ c', ¬ child = c' := fun h => h _ rfl
        refine ⟨result, hrun, fun c => (hresult c).trans ?_⟩
        simp only [RouterBlock, lastSuch_cons, hsame, List.forall_mem_cons, hsome, false_and,
          and_false, or_false, Option.some.injEq]
      · obtain ⟨result, hrun, hresult⟩ := ih hconfig output
        refine ⟨result, hrun, fun c => (hresult c).trans (pass ?_ c)⟩
        rintro c' ⟨hkey', -⟩
        exact hrouter (Option.some.inj (hkey.symm.trans hkey'))

/-- The router is created from the one router block that counts, if there is any. -/
theorem createRouter_cases {config : NginxConfig} (h : BlocksNamed config) (root : Bytes)
    (recorder : StatusRecorder) :
    (∃ c, (∀ c', RouterBlock config c' ↔ c = c') ∧ createRouter config root recorder =
        (registerRoutesFromConfig ⟨Router.mk' c root, recorder⟩).map some) ∨
      (∀ c, ¬ RouterBlock config c) ∧ createRouter config root recorder = some none := by
  obtain ⟨result, hrun, hresult⟩ := routerConfigLoop_spec h none
  simp only [reduceCtorEq, false_and, or_false] at hresult
  unfold createRouter
  rw [hrun]
  cases result with
  | none =>
    refine .inr ⟨fun c hc => ?_, rfl⟩
    have := (hresult c).mpr hc
    contradiction
  | some c =>
    refine .inl ⟨c, fun c' => ?_, ?_⟩
    · rw [← hresult, Option.some.injEq]
    · show (registerRoutesFromConfig ⟨Router.mk' c root, recorder⟩).bind
        (fun st => some (some st)) = _
      cases registerRoutesFromConfig ⟨Router.mk' c root, recorder⟩ <;> rfl

/-! ## Constructing the handler -/

/-- A constructor fails on a null config where it reads one, and the proxy's on
statements without a value. -/
theorem createHandler_ne_none_iff (stalePort : Int) (rootPath : Bytes) (handlerClass : HandlerClass)
    {child : NginxConfig} (hkeys : ∀ s ∈ child, ∃ keyword, s.tokens[0]? = some keyword) :
    createHandler stalePort rootPath handlerClass (some child) ≠ none ↔
      (handlerClass = .proxy → StatementsComplete "location" child ∧
        StatementsComplete "root" child ∧ StatementsComplete "port" child) := by
  cases handlerClass with
  | proxy =>
    rw [← ReverseProxyHandler.configure_isSome_iff hkeys [] ⟨∅, "", stalePort, false⟩]
    show (ReverseProxyHandler.configure child [] ⟨∅, "", stalePort, false⟩).map RouteHandler.proxy ≠
      none ↔ _
    simp
  | _ => simp [createHandler, staticPath]

/-! ## Selecting the handler -/

section Selecting

variable {c : NginxConfig} {r : Router} {uri name : Bytes}

/-- A name other than the default has a block. -/
theorem RoutesTo.lastBlock (h : RoutesTo c uri name) (hname : name ≠ "default") :
    ∃ child, LastBlock c name child := by
  rcases h with ⟨L, -, before, B, after, rfl, ⟨child, hblock, -⟩, -⟩ | ⟨-, hdefault⟩
  · exact exists_lastSuch (P := fun s child => HandlerBlock s name child) (a := B) (by simp) hblock
  · exact absurd hdefault hname

theorem LastBlock.mem {child : NginxConfig} (h : LastBlock c name child) :
    ∃ s ∈ c, HandlerBlock s name child := by
  obtain ⟨before, B, after, rfl, hblock, -⟩ := h
  exact ⟨B, by simp, hblock⟩

/-- A router that is filled from its config finds the handler of a URI, and
constructs it unless it is a proxy whose block is not complete. -/
theorem selectRouteHandler_ne_none_iff (hkeys : HasKeywords r.config)
    (hlocs : HandlersComplete r.config)
    (hmap : ∀ L name, r.routeMap.lookup L = some name ↔ FirstHandler r.config L name)
    {order : List (Bytes × Bytes)} (horder : r.routeMap.IteratedAs order) (stalePort : Int) :
    selectRouteHandler stalePort r order uri ≠ none ↔
      (RoutesTo r.config uri "proxy" → ∀ child, LastBlock r.config "proxy" child →
        StatementsComplete "root" child ∧ StatementsComplete "port" child) := by
  have hnamed : BlocksNamed r.config := fun s hs _ _ => hkeys.1 s hs
  obtain ⟨name, hname, hroutes⟩ := selectHandlerName_routesTo hkeys hlocs hmap horder uri
  have hselect : selectRouteHandler stalePort r order uri =
      (getHandlerConfig r (handlerClass name).2).bind
        (createHandler stalePort r.serverRoot (handlerClass name).1) := by
    unfold selectRouteHandler selectHandler
    rw [hname]
    simp only [Option.bind_eq_bind, Option.bind_some]
    cases getHandlerConfig r (handlerClass name).2 <;> rfl
  rw [hselect]
  by_cases hclass : (handlerClass name).1 = .default
  · obtain ⟨config, hconfig⟩ : ∃ config, getHandlerConfig r (handlerClass name).2 = some config :=
      getHandlerConfigLoop_total _ hnamed none
    rw [hconfig, hclass]
    refine iff_of_true (Option.some_ne_none _) fun hproxy => ?_
    rw [hroutes.unique hproxy] at hclass
    exact absurd hclass (by decide)
  · have hdefault : name ≠ "default" := by
      rintro rfl
      exact hclass (by decide)
    obtain ⟨child, hlast⟩ := hroutes.lastBlock hdefault
    obtain ⟨B, hB, hblock⟩ := hlast.mem
    have hconfig := (getHandlerConfig_iff r name child).mpr ⟨hnamed, hlast⟩
    rw [handlerClass_named hclass, hconfig, Option.bind_some,
      createHandler_ne_none_iff stalePort _ _ (hkeys.2 B hB child hblock.2.2)]
    constructor
    · intro h hproxy child' hlast'
      obtain rfl := hroutes.unique hproxy
      have hsame := (getHandlerConfig_iff r "proxy" child').mpr ⟨hnamed, hlast'⟩
      obtain rfl := Option.some.inj (Option.some.inj (hconfig.symm.trans hsame))
      exact (h (by decide)).2
    · intro h hproxy
      obtain rfl : name = lit "proxy" := by
        rw [← handlerClass_named hclass, handlerClass_proxy hproxy]
      exact ⟨hlocs B hB _ child hblock, h hroutes child hlast⟩

end Selecting

/-! ## Accepted configs -/

/-- What a router that is filled from its config can look up, given that the
locations of its handlers are complete. -/
theorem registered_lookups {c : NginxConfig} (hkeys : HasKeywords c) {root : Bytes}
    {recorder : StatusRecorder} {st : RouterState}
    (hreg : registerRoutesFromConfig ⟨Router.mk' c root, recorder⟩ = some st) (uri : Bytes) :
    (∀ name, getHandlerConfig st.router name ≠ none) ∧
      (∀ proxyConfig, getHandlerConfig st.router "proxy" = some (some proxyConfig) →
        validProxy uri proxyConfig ≠ none) ∧
      getRouteHandler st.router uri ≠ none ∧
      ∀ order, st.router.routeMap.IteratedAs order → ∀ stalePort,
        (selectRouteHandler stalePort st.router order uri ≠ none ↔
          (RoutesTo c uri "proxy" → ∀ child, LastBlock c "proxy" child →
            StatementsComplete "root" child ∧ StatementsComplete "port" child)) := by
  have hlocs : HandlersComplete c := registerHandlers_complete hreg
  obtain rfl : st = registerAll (c.flatMap statementRoutes) ⟨Router.mk' c root, recorder⟩ :=
    registerHandlers_routes hreg
  have hmap := lookup_registered c root recorder
  have hconfig := registerAll_config (c.flatMap statementRoutes) ⟨Router.mk' c root, recorder⟩
  change _ = c at hconfig
  generalize (registerAll (c.flatMap statementRoutes) ⟨Router.mk' c root, recorder⟩).router = r
    at hmap hconfig
  subst hconfig
  have hnamed : BlocksNamed r.config := fun s hs _ _ => hkeys.1 s hs
  refine ⟨fun name => ?_, fun proxyConfig hproxy => ?_, ?_, fun order horder stalePort =>
    selectRouteHandler_ne_none_iff hkeys hlocs hmap horder stalePort⟩
  · obtain ⟨result, hrun⟩ := getHandlerConfigLoop_total name hnamed none
    exact Option.ne_none_iff_exists'.mpr ⟨result, hrun⟩
  · obtain ⟨B, hB, hblock⟩ := ((getHandlerConfig_iff r "proxy" proxyConfig).mp hproxy).2.mem
    obtain ⟨valid, hvalid, -⟩ := validProxy_isSome uri proxyConfig
      (hkeys.2 B hB proxyConfig hblock.2.2) (hlocs B hB _ proxyConfig hblock)
    exact Option.ne_none_iff_exists'.mpr ⟨valid, hvalid⟩
  · cases hlookup : r.routeMap.lookup uri with
    | some name =>
      unfold getRouteHandler
      rw [hlookup]
      exact Option.some_ne_none _
    | none =>
      have hno : ¬ Registered r.config uri := by
        rw [registered_iff]
        rintro ⟨name, hname⟩
        rw [(hmap uri name).mpr hname] at hlookup
        contradiction
      rw [getRouteHandler_default hkeys hlocs hlookup hno]
      exact Option.some_ne_none _

/-- **An accepted config is safe to serve exactly when the statements that are
read with two tokens have them.** -/
theorem noCrash_iff {s : Bytes} {config : NginxConfig} (hparse : parse s [] = (true, config))
    (serverRoot uri : Bytes) (recorder : StatusRecorder) :
    NoCrash config serverRoot uri recorder ↔ TokensComplete config uri := by
  rcases createRouter_cases (blocksNamed_of_parse hparse .root) serverRoot recorder with
    ⟨c, hblock, hcreate⟩ | ⟨hno, hcreate⟩
  · obtain ⟨before, B, after, hconfig, hB, -⟩ := (hblock c).mpr rfl
    have hmem : B ∈ config := by
      rw [hconfig]
      simp
    have hkeys : HasKeywords c := hasKeywords_of_wellFormed
      ((Within.block .root hmem hB.2).allWellFormedWith (wellFormed_of_parse hparse).2)
    simp only [TokensComplete, hblock, forall_eq']
    cases hreg : registerRoutesFromConfig ⟨Router.mk' c serverRoot, recorder⟩ with
    | none =>
      rw [hreg] at hcreate
      refine iff_of_false (fun h => h.creation hcreate) fun h => ?_
      have hrun := registerHandlers_eq c h.1 ⟨Router.mk' c serverRoot, recorder⟩
      have := hreg.symm.trans hrun
      contradiction
    | some st =>
      rw [hreg] at hcreate
      obtain ⟨hlookup, hcheck, hroute, hselect⟩ := registered_lookups hkeys hreg uri
      constructor
      · intro h
        have horder : st.router.routeMap.IteratedAs
            (st.router.routeMap.entries.map fun e => (e.1, e.2)) := List.Perm.refl _
        exact ⟨registerHandlers_complete hreg,
          (hselect _ horder 0).mp (h.selection st hcreate _ horder 0)⟩
      · rintro ⟨-, hproxy⟩
        have hst : ∀ st', createRouter config serverRoot recorder = some (some st') → st = st' :=
          fun st' h => Option.some.inj (Option.some.inj (hcreate.symm.trans h))
        constructor
        · rw [hcreate]
          exact Option.some_ne_none _
        · exact fun st' h => hst st' h ▸ hlookup
        · exact fun st' h => hst st' h ▸ hcheck
        · exact fun st' h => hst st' h ▸ hroute
        · intro st' h order horder stalePort
          obtain rfl := hst st' h
          exact (hselect order horder stalePort).mpr hproxy
  · have hnothing (st : RouterState) :
        createRouter config serverRoot recorder ≠ some (some st) := by
      rw [hcreate]
      simp
    refine iff_of_true ⟨?_, fun st h => absurd h (hnothing st), fun st h => absurd h (hnothing st),
      fun st h => absurd h (hnothing st), fun st h => absurd h (hnothing st)⟩
      fun c hc => absurd hc (hno c)
    rw [hcreate]
    exact Option.some_ne_none _

/-- A complete proxy block is safe to serve. -/
theorem noCrash_ucla : NoCrash
    [.mk ["router"] (some [.mk ["handler", "proxy"] (some (proxySettings "/ucla" "www.ucla.edu"))])]
    "/root" "/ucla/about" ⟨[], []⟩ := by
  have hparse : parse "router{handler proxy{location /ucla;root www.ucla.edu;port 80;}}" [] =
    (true, [.mk ["router"]
      (some [.mk ["handler", "proxy"] (some (proxySettings "/ucla" "www.ucla.edu"))])]) := rfl
  refine (noCrash_iff hparse "/root" "/ucla/about" ⟨[], []⟩).mpr fun c hc => ?_
  obtain ⟨hkey, hchild⟩ := ((lastSuch_cons.mp hc).resolve_left fun h => by simp [LastSuch] at h).1
  obtain rfl := Option.some.inj hchild
  refine ⟨?_, fun _ child hlast => ?_⟩
  · intro B hB name child hblock l hl _
    obtain rfl := List.mem_singleton.mp hB
    obtain rfl := Option.some.inj hblock.2.2
    exact proxySettings_complete hl
  · obtain ⟨B, hB, hblock⟩ := hlast.mem
    obtain rfl := List.mem_singleton.mp hB
    obtain rfl := Option.some.inj hblock.2.2
    exact ⟨fun l hl _ => proxySettings_complete hl, fun l hl _ => proxySettings_complete hl⟩

/-- A `location` without a path is accepted, and read past its end when the
routes are registered. -/
theorem noCrash_location_without_path :
    parse "router{handler echo{location;}}" [] =
        (true, [.mk ["router"] (some [.mk ["handler", "echo"] (some [.mk ["location"] none])])]) ∧
      ¬ NoCrash [.mk ["router"] (some [.mk ["handler", "echo"] (some [.mk ["location"] none])])]
        "/root" "/echo" ⟨[], []⟩ :=
  ⟨rfl, fun h => h.creation rfl⟩

end GittyUp
