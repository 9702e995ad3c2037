import GittyUp.Router.Selection

/-!
# Which settings a location is served with

Registration keeps the first block that contains a location;
`get_handler_config` looks a block up by the handler's name alone and keeps the
last one of the name. `own_settings_iff` says when the two scans meet in the
same block.
-/

namespace GittyUp

open Lib

/-- Location `L` is bound from the block `child` of the handler `name`: the
first block of the config that contains it. -/
def BoundFrom (c : NginxConfig) (L name : Bytes) (child : NginxConfig) : Prop :=
  ∃ before B after, c = before ++ B :: after ∧ HandlerBlock B name child ∧ HasLocation child L ∧
    ∀ s ∈ before, ∀ name', ¬ Binds s name' L

theorem BoundFrom.firstHandler {c : NginxConfig} {L name : Bytes} {child : NginxConfig}
    (h : BoundFrom c L name child) : FirstHandler c L name := by
  obtain ⟨before, B, after, hc, hblock, hloc, hfirst⟩ := h
  exact ⟨before, B, after, hc, ⟨child, hblock, hloc⟩, hfirst⟩

/-- Every block of a config out of a successful `Parse` has a name. -/
theorem blocksNamed_of_parse {s : Bytes} {t c : NginxConfig} (hparse : parse s [] = (true, t))
    (hwithin : Within t c) : BlocksNamed c :=
  fun s hs _ _ => (hasKeywords_of_wellFormed
    (hwithin.allWellFormedWith (wellFormed_of_parse hparse).2)).1 s hs

/-- A registration that succeeds has read every location of the block. -/
theorem registerLocations_complete {handlerKey : Bytes} {child : NginxConfig}
    {st st' : RouterState} (h : registerLocations handlerKey child st = some st') :
    ∀ l ∈ child, l.tokens[0]? = some (lit "location") → ∃ L, l.tokens[1]? = some L := by
  induction child generalizing st with
  | nil => simp
  | cons l child ih =>
    rw [registerLocations] at h
    rw [List.forall_mem_cons]
    split_ifs at h with hloc
    · obtain ⟨uri, huri, h⟩ := Option.bind_eq_some_iff.mp h
      exact ⟨fun _ => ⟨uri, huri⟩, ih h⟩
    · exact ⟨fun h' => absurd h' hloc, ih h⟩

/-- A registration that succeeds has read every location of every handler. -/
theorem registerHandlers_complete {c : NginxConfig} {st st' : RouterState}
    (h : registerHandlers c st = some st') : HandlersComplete c := by
  induction c generalizing st with
  | nil => simp [HandlersComplete]
  | cons s c ih =>
    have hs : ∀ name child, HandlerBlock s name child → ∀ l ∈ child,
        l.tokens[0]? = some (lit "location") → ∃ L, l.tokens[1]? = some L := by
      rintro name child ⟨hkey, hname, hch⟩
      rw [registerHandlers] at h
      simp only [hkey, hname, hch] at h
      obtain ⟨st₁, hst₁, -⟩ := Option.bind_eq_some_iff.mp h
      exact registerLocations_complete hst₁
    rw [registerHandlers_cons s c hs] at h
    exact List.forall_mem_cons.mpr ⟨hs, ih h⟩

/-- A registration that succeeds has registered the routes of every statement. -/
theorem registerHandlers_routes {c : NginxConfig} {st st' : RouterState}
    (h : registerHandlers c st = some st') :
    st' = registerAll (c.flatMap statementRoutes) st := by
  rw [registerHandlers_eq c (registerHandlers_complete h)] at h
  exact (Option.some.inj h).symm

/-- A bound location whose name is known is dispatched to its handler, under
its own name. -/
theorem selectHandler_bound {c : NginxConfig} {root : Bytes} {recorder : StatusRecorder}
    {st : RouterState} (hreg : registerRoutesFromConfig ⟨Router.mk' c root, recorder⟩ = some st)
    {L name : Bytes} (hfirst : FirstHandler c L name) (hknown : (handlerClass name).2 = name)
    {order : List (Bytes × Bytes)} {uri : Bytes} (huri : longestPrefixMatch order uri = L) :
    st.router.config = c ∧
      selectHandler st.router order uri =
        (getHandlerConfig st.router name).map fun config => ((handlerClass name).1, config) := by
  obtain rfl : st = registerAll (c.flatMap statementRoutes) ⟨Router.mk' c root, recorder⟩ :=
    registerHandlers_routes hreg
  have hlookup := (lookup_registered c root recorder L name).mpr hfirst
  refine ⟨registerAll_config _ _, ?_⟩
  have hname : selectHandlerName (registerAll (c.flatMap statementRoutes)
      ⟨Router.mk' c root, recorder⟩).router order uri = some name := by
    unfold selectHandlerName getRouteHandler
    rw [huri, hlookup]
  unfold selectHandler
  rw [hname]
  simp only [Option.bind_eq_bind, Option.bind_some, hknown]
  cases getHandlerConfig _ name <;> rfl

/-- **Each location is served with its own block's settings** exactly when the
last block that carries the handler's name has the contents of the block the
location is bound from. -/
theorem own_settings_iff {c : NginxConfig} {root : Bytes} {recorder : StatusRecorder}
    {st : RouterState} (hreg : registerRoutesFromConfig ⟨Router.mk' c root, recorder⟩ = some st)
    {L name : Bytes} {child : NginxConfig} (hbound : BoundFrom c L name child)
    (hknown : (handlerClass name).2 = name) {order : List (Bytes × Bytes)} {uri : Bytes}
    (huri : longestPrefixMatch order uri = L) :
    selectHandler st.router order uri = some ((handlerClass name).1, some child) ↔
      BlocksNamed c ∧ LastBlock c name child := by
  obtain ⟨hconfig, hselect⟩ := selectHandler_bound hreg hbound.firstHandler hknown huri
  have hlast := getHandlerConfig_iff st.router name child
  rw [hconfig] at hlast
  rw [hselect, ← hlast]
  cases getHandlerConfig st.router name with
  | none => simp
  | some config => simp

/-- The settings of a `static1` block: its location and its root. -/
def staticSettings (location root : Bytes) : NginxConfig :=
  [.mk ["location", location] none, .mk ["root", root] none]

/-- A config with one block: `/a/x` is served from its root. -/
theorem own_settings_one_block :
    ∃ st, registerRoutesFromConfig ⟨Router.mk'
        [.mk ["handler", "static1"] (some (staticSettings "/a" "one"))] [], ⟨[], []⟩⟩ = some st ∧
      selectHandler st.router [("/a", "static1")] "/a/x" =
        some (.staticFile, some (staticSettings "/a" "one")) := by
  have hbound : BoundFrom [.mk ["handler", "static1"] (some (staticSettings "/a" "one"))]
      "/a" "static1" (staticSettings "/a" "one") :=
    ⟨[], _, [], rfl, ⟨rfl, rfl, rfl⟩, ⟨_, List.mem_cons_self, rfl, rfl⟩, by simp⟩
  refine ⟨_, rfl, (own_settings_iff rfl hbound ?_ ?_).mpr ⟨?_, ?_⟩⟩
  · rfl
  · rfl
  · intro s hs child _
    obtain rfl := List.mem_singleton.mp hs
    exact ⟨_, rfl⟩
  · exact ⟨[], _, [], rfl, ⟨rfl, rfl, rfl⟩, by simp⟩

/-- Two blocks of one name: the location of the first is served with the root
of the second. -/
theorem own_settings_two_blocks :
    ∃ st, registerRoutesFromConfig ⟨Router.mk'
          [.mk ["handler", "static1"] (some (staticSettings "/a" "one")),
            .mk ["handler", "static1"] (some (staticSettings "/b" "two"))] [], ⟨[], []⟩⟩ =
        some st ∧
      BoundFrom st.router.config "/a" "static1" (staticSettings "/a" "one") ∧
      st.router.routeMap.IteratedAs [("/b", "static1"), ("/a", "static1")] ∧
      longestPrefixMatch [("/b", "static1"), ("/a", "static1")] "/a/x" = "/a" ∧
      selectHandler st.router [("/b", "static1"), ("/a", "static1")] "/a/x" =
        some (.staticFile, some (staticSettings "/b" "two")) ∧
      staticSettings "/b" "two" ≠ staticSettings "/a" "one" := by
  refine ⟨_, rfl, ?_, ?_, rfl, rfl, ?_⟩
  · exact ⟨[], _, _, rfl, ⟨rfl, rfl, rfl⟩, ⟨_, List.mem_cons_self, rfl, rfl⟩, by simp⟩
  · exact List.Perm.refl _
  · intro h
    have hlocation : lit "/b" = lit "/a" := by
      simp only [staticSettings, List.cons.injEq, NginxConfigStatement.mk.injEq] at h
      exact h.1.1.2.1
    exact absurd hlocation (by decide)

end GittyUp
