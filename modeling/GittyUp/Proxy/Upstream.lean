import GittyUp.Proxy.Proxy
import GittyUp.Router.Settings

/-!
# Which upstream a proxied URI finds

The router sends a URI to the proxy by its longest registered prefix; the proxy
picks the host by the URI's first segment. `findsUpstream_iff`: the two agree
only where that prefix is the first segment.
-/

namespace GittyUp

open Lib

/-- The block lists `location L; root H;` for each of the pairs, in this order,
besides other statements. -/
inductive ListsProxies : NginxConfig → List (Bytes × Bytes) → Prop
  | nil : ListsProxies [] []
  | pair {L H : Bytes} {rest : NginxConfig} {pairs : List (Bytes × Bytes)} :
      ListsProxies rest pairs →
      ListsProxies (.mk ["location", L] none :: .mk ["root", H] none :: rest) ((L, H) :: pairs)
  | other {s : NginxConfigStatement} {rest : NginxConfig} {pairs : List (Bytes × Bytes)} :
      s.tokens[0]? ≠ some (lit "location") → s.tokens[0]? ≠ some (lit "root") →
      ListsProxies rest pairs → ListsProxies (s :: rest) pairs

/-- A proxy block whose locations are distinct and begin with a slash. -/
structure ProxyBlock (child : NginxConfig) (pairs : List (Bytes × Bytes)) : Prop where
  lists : ListsProxies child pairs
  distinct : (pairs.map Prod.fst).Nodup
  rooted : ∀ p ∈ pairs, lit "/" <+: p.1

/-- `child` is the only block of the handler `name`. -/
def OnlyBlock (c : NginxConfig) (name : Bytes) (child : NginxConfig) : Prop :=
  ∃ before B after, c = before ++ B :: after ∧ HandlerBlock B name child ∧
    ∀ s ∈ before ++ after, ∀ child', ¬ HandlerBlock s name child'

theorem OnlyBlock.lastBlock {c : NginxConfig} {name : Bytes} {child : NginxConfig}
    (h : OnlyBlock c name child) : LastBlock c name child := by
  obtain ⟨before, B, after, hc, hblock, honly⟩ := h
  exact ⟨before, B, after, hc, hblock, fun s hs => honly s (List.mem_append_right _ hs)⟩

/-- Every `port` statement has its port. -/
def PortsComplete (child : NginxConfig) : Prop :=
  ∀ s ∈ child, s.tokens[0]? = some (lit "port") → ∃ port, s.tokens[1]? = some port

/-- Every statement with the keyword has a second token. -/
def StatementsComplete (keyword : Bytes) (child : NginxConfig) : Prop :=
  ∀ s ∈ child, s.tokens[0]? = some keyword → ∃ value, s.tokens[1]? = some value

/-- The URI up to its second slash. -/
def firstSegment : Bytes → Bytes
  | [] => []
  | c :: uri => c :: uri.takeWhile fun c : Byte => c ≠ '/'

/-- The proxy made from the config finds the host `H` for the URI. -/
def FindsUpstream (stalePort : Int) (config : Option NginxConfig) (uri H : Bytes) : Prop :=
  ∃ handler path, ReverseProxyHandler.mk' stalePort config = some handler ∧
    handler.findProxy uri = .ok (H, path)

namespace ReverseProxyHandler

/-! ## The constructor -/

/-- What the loop does with one statement. -/
theorem configure_cons {s : NginxConfigStatement} {keyword : Bytes}
    (hkey : s.tokens[0]? = some keyword) (rest : NginxConfig) (location : Bytes)
    (handler : ReverseProxyHandler) :
    configure (s :: rest) location handler =
      if keyword = lit "location" then
        s.tokens[1]?.bind fun location => configure rest location handler
      else if keyword = lit "root" then
        s.tokens[1]?.bind fun host => configure rest location
          { handler with location2proxy := handler.location2proxy.insertNew location host }
      else if keyword = lit "port" then
        s.tokens[1]?.bind fun port => configure rest location { handler with portNum := atoi port }
      else configure rest location handler := by
  rw [configure, hkey]
  rfl

/-- The constructor enters the pairs that the block lists. -/
theorem configure_lists {child : NginxConfig} {pairs : List (Bytes × Bytes)}
    (h : ListsProxies child pairs) (hkeys : ∀ s ∈ child, ∃ keyword, s.tokens[0]? = some keyword)
    (hports : PortsComplete child) (location : Bytes) (handler : ReverseProxyHandler) :
    ∃ handler', configure child location handler = some handler' ∧
      ∀ K, handler'.location2proxy.lookup K =
        (handler.location2proxy.lookup K).or (pairs.lookup K) := by
  induction h generalizing location handler with
  | nil => exact ⟨handler, rfl, fun K => (Option.or_none).symm⟩
  | @pair L H rest pairs _ ih =>
    obtain ⟨-, hkeys⟩ := List.forall_mem_cons.mp hkeys
    obtain ⟨-, hkeys⟩ := List.forall_mem_cons.mp hkeys
    obtain ⟨-, hports⟩ := List.forall_mem_cons.mp hports
    obtain ⟨-, hports⟩ := List.forall_mem_cons.mp hports
    obtain ⟨handler', hrun, hlookup⟩ := ih hkeys hports L
      { handler with location2proxy := handler.location2proxy.insertNew L H }
    refine ⟨handler', hrun, fun K => ?_⟩
    rw [hlookup, UnorderedMap.lookup_insertNew, Option.or_assoc, List.lookup_cons]
    by_cases hK : K = L
    · simp [hK]
    · rw [if_neg hK, beq_false_of_ne hK, Option.none_or]
  | @other s rest pairs hlocation hroot _ ih =>
    obtain ⟨⟨keyword, hkey⟩, hkeys⟩ := List.forall_mem_cons.mp hkeys
    obtain ⟨hport, hports⟩ := List.forall_mem_cons.mp hports
    rw [hkey] at hlocation hroot
    rw [configure_cons hkey, if_neg (fun h => hlocation (congrArg some h)),
      if_neg (fun h => hroot (congrArg some h))]
    split_ifs with hkw
    · obtain ⟨port, hval⟩ := hport (hkw ▸ hkey)
      rw [hval]
      exact ih hkeys hports location { handler with portNum := atoi port }
    · exact ih hkeys hports location handler

/-- The constructor of the proxy succeeds exactly when the three kinds of
statements that it reads are complete. -/
theorem configure_isSome_iff {child : NginxConfig}
    (hkeys : ∀ s ∈ child, ∃ keyword, s.tokens[0]? = some keyword) (location : Bytes)
    (handler : ReverseProxyHandler) : configure child location handler ≠ none ↔
      StatementsComplete "location" child ∧ StatementsComplete "root" child ∧
        StatementsComplete "port" child := by
  induction child generalizing location handler with
  | nil =>
    have hnil (keyword : Bytes) : StatementsComplete keyword [] := fun _ hs => by cases hs
    exact iff_of_true (Option.some_ne_none _) ⟨hnil _, hnil _, hnil _⟩
  | cons s child ih =>
    obtain ⟨⟨keyword, hkey⟩, hkeys⟩ := List.forall_mem_cons.mp hkeys
    have hcons (K : Bytes) : StatementsComplete K (s :: child) ↔
        (keyword = K → ∃ value, s.tokens[1]? = some value) ∧ StatementsComplete K child := by
      unfold StatementsComplete
      rw [List.forall_mem_cons, hkey, Option.some.injEq]
    have hrest := ih hkeys
    rw [hcons, hcons, hcons, configure_cons hkey]
    cases hval : s.tokens[1]? with
    | some value =>
      have hread (K : Bytes) : keyword = K → ∃ v, some value = some v := fun _ => ⟨value, rfl⟩
      rw [and_iff_right (hread _), and_iff_right (hread _), and_iff_right (hread _)]
      split_ifs <;> exact hrest _ _
    | none =>
      have hnone : ¬ ∃ v, (none : Option Bytes) = some v := fun ⟨_, hv⟩ => by cases hv
      by_cases hlocation : keyword = lit "location"
      · rw [if_pos hlocation]
        exact iff_of_false (fun h => h rfl) fun h => hnone (h.1.1 hlocation)
      by_cases hroot : keyword = lit "root"
      · rw [if_neg hlocation, if_pos hroot]
        exact iff_of_false (fun h => h rfl) fun h => hnone (h.2.1.1 hroot)
      by_cases hport : keyword = lit "port"
      · rw [if_neg hlocation, if_neg hroot, if_pos hport]
        exact iff_of_false (fun h => h rfl) fun h => hnone (h.2.2.1 hport)
      · rw [if_neg hlocation, if_neg hroot, if_neg hport, hrest,
          and_iff_right fun h => absurd h hlocation, and_iff_right fun h => absurd h hroot,
          and_iff_right fun h => absurd h hport]

/-! ## The lookup -/

/-- The slash that may be appended ends the same run of non-slashes. -/
theorem takeWhile_append_slash (uri : Bytes) :
    (uri ++ lit "/").takeWhile (fun c : Byte => c ≠ '/') =
      uri.takeWhile fun c : Byte => c ≠ '/' := by
  induction uri with
  | nil => rfl
  | cons c uri ih =>
    rw [List.cons_append, List.takeWhile_cons, List.takeWhile_cons, ih]

/-- The key of the lookup is the first segment of the URI. -/
theorem findProxy_ok_iff (handler : ReverseProxyHandler) {uri H : Bytes} (huri : lit "/" <+: uri) :
    (∃ path, handler.findProxy uri = .ok (H, path)) ↔
      uri ≠ lit "/" ∧ handler.location2proxy.lookup (firstSegment uri) = some H := by
  obtain ⟨rest, rfl⟩ := huri
  cases hlast : rest.getLast? with
  | none =>
    obtain rfl := List.getLast?_eq_none_iff.mp hlast
    simp [findProxy, lit]
  | some last =>
    have hne : lit "/" ++ rest ≠ lit "/" := by
      intro h
      obtain rfl := List.append_right_eq_self.mp h
      contradiction
    have hkey : (if last ≠ '/' then rest ++ lit "/" else rest).takeWhile
        (fun c : Byte => c ≠ '/') = rest.takeWhile fun c : Byte => c ≠ '/' := by
      split_ifs
      · exact takeWhile_append_slash rest
      · rfl
    rw [and_iff_right hne]
    show (∃ path, findProxy handler (('/' : Byte) :: rest) = .ok (H, path)) ↔
      handler.location2proxy.lookup (lit "/" ++ rest.takeWhile fun c : Byte => c ≠ '/') = some H
    rw [findProxy, hlast]
    dsimp only
    rw [hkey]
    cases handler.location2proxy.lookup (lit "/" ++ rest.takeWhile fun c : Byte => c ≠ '/') with
    | none => simp
    | some host => simp

end ReverseProxyHandler

/-! ## The proxy behind the router -/

/-- The block lists a pair exactly when the list of pairs finds it. -/
theorem ProxyBlock.lookup_iff {child : NginxConfig} {pairs : List (Bytes × Bytes)}
    (h : ProxyBlock child pairs) (K H : Bytes) : pairs.lookup K = some H ↔ (K, H) ∈ pairs := by
  constructor
  · intro hlookup
    obtain ⟨before, after, rfl, -⟩ := List.lookup_eq_some_iff.mp hlookup
    simp
  · exact fun hmem => lookup_of_mem h.distinct hmem

/-- A proxy that is made from a proxy block finds the host that the block pairs
with the first segment. -/
theorem ProxyBlock.finds_iff {child : NginxConfig} {pairs : List (Bytes × Bytes)}
    (h : ProxyBlock child pairs) (hkeys : ∀ s ∈ child, ∃ keyword, s.tokens[0]? = some keyword)
    (stalePort : Int) {uri H : Bytes} (huri : lit "/" <+: uri) :
    FindsUpstream stalePort (some child) uri H ↔
      PortsComplete child ∧ uri ≠ lit "/" ∧ (firstSegment uri, H) ∈ pairs := by
  constructor
  · rintro ⟨handler, path, hmake, hfind⟩
    have hports : PortsComplete child :=
      ((ReverseProxyHandler.configure_isSome_iff hkeys [] ⟨∅, "", stalePort, false⟩).mp fun hnone =>
        Option.some_ne_none handler (hmake.symm.trans hnone)).2.2
    obtain ⟨handler', hrun, hlookup⟩ := ReverseProxyHandler.configure_lists h.lists hkeys hports
      [] ⟨∅, "", stalePort, false⟩
    obtain rfl := Option.some.inj (hmake.symm.trans hrun)
    obtain ⟨hne, hfound⟩ := (handler.findProxy_ok_iff huri).mp ⟨path, hfind⟩
    rw [hlookup, AList.lookup_empty, Option.none_or, h.lookup_iff] at hfound
    exact ⟨hports, hne, hfound⟩
  · rintro ⟨hports, hne, hmem⟩
    obtain ⟨handler, hrun, hlookup⟩ := ReverseProxyHandler.configure_lists h.lists hkeys hports
      [] ⟨∅, "", stalePort, false⟩
    have hfound : handler.location2proxy.lookup (firstSegment uri) = some H := by
      rw [hlookup, AList.lookup_empty, Option.none_or, h.lookup_iff]
      exact hmem
    obtain ⟨path, hfind⟩ := (handler.findProxy_ok_iff huri).mpr ⟨hne, hfound⟩
    exact ⟨handler, path, hrun, hfind⟩

/-- A proxy that is selected is given the only proxy block of the config. -/
theorem OnlyBlock.config_of_selectHandler {r : Router} {child : NginxConfig}
    (honly : OnlyBlock r.config "proxy" child) (hnamed : BlocksNamed r.config)
    {order : List (Bytes × Bytes)} {uri : Bytes} {config : Option NginxConfig}
    (h : selectHandler r order uri = some (.proxy, config)) : config = some child := by
  obtain ⟨handler, -, h⟩ := Option.bind_eq_some_iff.mp h
  obtain ⟨config', hconfig, h⟩ := Option.bind_eq_some_iff.mp h
  obtain ⟨hclass, rfl⟩ := Prod.mk.inj (Option.some.inj h)
  rw [handlerClass_proxy hclass,
    (getHandlerConfig_iff r "proxy" child).mpr ⟨hnamed, honly.lastBlock⟩] at hconfig
  exact (Option.some.inj hconfig).symm

/-- **A proxied URI finds its upstream exactly when its first segment is paired
with that host.** The router matched the location `L`, so this takes an `L`
that is a single segment, continued by a slash or not at all, or a location for
the first segment that happens to have the same host. -/
theorem findsUpstream_iff {s : Bytes} {t c : NginxConfig} (hparse : parse s [] = (true, t))
    (hwithin : Within t c) {root : Bytes} {recorder : StatusRecorder} {st : RouterState}
    (hreg : registerRoutesFromConfig ⟨Router.mk' c root, recorder⟩ = some st)
    {child : NginxConfig} {pairs : List (Bytes × Bytes)} (honly : OnlyBlock c "proxy" child)
    (hblock : ProxyBlock child pairs) {L H uri : Bytes} (hpair : (L, H) ∈ pairs)
    (hlongest : LongestLocation c uri L) {order : List (Bytes × Bytes)}
    {config : Option NginxConfig}
    (hselect : selectHandler st.router order uri = some (.proxy, config)) (stalePort : Int) :
    FindsUpstream stalePort config uri H ↔
      PortsComplete child ∧ uri ≠ lit "/" ∧ (firstSegment uri, H) ∈ pairs := by
  obtain rfl : st = registerAll (c.flatMap statementRoutes) ⟨Router.mk' c root, recorder⟩ :=
    registerHandlers_routes hreg
  have hkeys := hasKeywords_of_wellFormed
    (hwithin.allWellFormedWith (wellFormed_of_parse hparse).2)
  have hconfig := registerAll_config (c.flatMap statementRoutes) ⟨Router.mk' c root, recorder⟩
  have hgiven : config = some child := by
    refine OnlyBlock.config_of_selectHandler ?_ ?_ hselect
    · exact hconfig ▸ honly
    · exact hconfig ▸ blocksNamed_of_parse hparse hwithin
  obtain ⟨before, B, after, rfl, hB, -⟩ := honly
  have hchild : ∀ s ∈ child, ∃ keyword, s.tokens[0]? = some keyword :=
    hkeys.2 B (by simp) child hB.2.2
  rw [hgiven]
  exact hblock.finds_iff hchild stalePort ((hblock.rooted _ hpair).trans hlongest.2.1)

/-- A proxy block with one location. -/
def proxySettings (location host : Bytes) : NginxConfig :=
  [.mk ["location", location] none, .mk ["root", host] none, .mk ["port", "80"] none]

theorem mem_proxySettings {location host : Bytes} {l : NginxConfigStatement} :
    l ∈ proxySettings location host ↔ l = .mk ["location", location] none ∨
      l = .mk ["root", host] none ∨ l = .mk ["port", "80"] none := by
  rw [proxySettings, List.mem_cons, List.mem_cons, List.mem_singleton]

/-- Every statement of it has its value. -/
theorem proxySettings_complete {location host : Bytes} {l : NginxConfigStatement}
    (hl : l ∈ proxySettings location host) : ∃ value, l.tokens[1]? = some value := by
  rcases mem_proxySettings.mp hl with rfl | rfl | rfl
  · exact ⟨location, rfl⟩
  · exact ⟨host, rfl⟩
  · exact ⟨"80", rfl⟩

theorem proxyBlock_settings {location host : Bytes} (h : lit "/" <+: location) :
    ProxyBlock (proxySettings location host) [(location, host)] where
  lists := .pair (.other (s := .mk ["port", "80"] none) (by decide) (by decide) .nil)
  distinct := List.nodup_singleton _
  rooted := by simpa using h

theorem longestLocation_settings {location host uri : Bytes} (h : location <+: uri) :
    LongestLocation [.mk ["handler", "proxy"] (some (proxySettings location host))] uri
      location := by
  have hloc : HasLocation (proxySettings location host) location :=
    ⟨_, List.mem_cons_self, rfl, rfl⟩
  refine ⟨⟨_, List.mem_cons_self, _, _, ⟨rfl, rfl, rfl⟩, hloc⟩, h, ?_⟩
  rintro L' ⟨B, hB, name, child, ⟨-, -, hchild⟩, l, hl, hkey, hL'⟩ -
  obtain rfl := List.mem_singleton.mp hB
  obtain rfl := Option.some.inj hchild
  rcases mem_proxySettings.mp hl with rfl | rfl | rfl
  · obtain rfl := Option.some.inj hL'
    exact le_refl _
  · have hne : lit "root" = lit "location" := Option.some.inj hkey
    exact absurd hne (by decide)
  · exact absurd hkey (by decide)

/-- `/ucla/about` finds the host of the location `/ucla`. -/
theorem findsUpstream_ucla :
    FindsUpstream 0 (some (proxySettings "/ucla" "www.ucla.edu")) "/ucla/about" "www.ucla.edu" := by
  have hparse : parse "handler proxy{location /ucla;root www.ucla.edu;port 80;}" [] =
    (true, [.mk ["handler", "proxy"] (some (proxySettings "/ucla" "www.ucla.edu"))]) := rfl
  have hreg : registerRoutesFromConfig ⟨Router.mk'
      [.mk ["handler", "proxy"] (some (proxySettings "/ucla" "www.ucla.edu"))] [], ⟨[], []⟩⟩ =
    some _ := rfl
  have honly : OnlyBlock [.mk ["handler", "proxy"] (some (proxySettings "/ucla" "www.ucla.edu"))]
      "proxy" (proxySettings "/ucla" "www.ucla.edu") :=
    ⟨[], _, [], rfl, ⟨rfl, rfl, rfl⟩, by simp⟩
  have hports : PortsComplete (proxySettings "/ucla" "www.ucla.edu") :=
    fun s hs _ => proxySettings_complete hs
  exact (findsUpstream_iff hparse .root hreg honly (proxyBlock_settings (by decide))
    List.mem_cons_self (longestLocation_settings (by decide))
    (show selectHandler _ [("/ucla", "proxy")] _ = some (.proxy, some _) by rfl) 0).mpr
      ⟨hports, by decide, by decide⟩

/-- `/a/b/x` is sent to the proxy by its location `/a/b`, and is looked up as
`/a` there. -/
theorem findsUpstream_two_segments :
    parse "handler proxy{location /a/b;root host;port 80;}" [] =
        (true, [.mk ["handler", "proxy"] (some (proxySettings "/a/b" "host"))]) ∧
      ProxyBlock (proxySettings "/a/b" "host") [("/a/b", "host")] ∧
      ∃ st handler, registerRoutesFromConfig ⟨Router.mk'
          [.mk ["handler", "proxy"] (some (proxySettings "/a/b" "host"))] [], ⟨[], []⟩⟩ = some st ∧
        LongestLocation st.router.config "/a/b/x" "/a/b" ∧
        st.router.routeMap.IteratedAs [("/a/b", "proxy")] ∧
        selectHandler st.router [("/a/b", "proxy")] "/a/b/x" =
          some (.proxy, some (proxySettings "/a/b" "host")) ∧
        ReverseProxyHandler.mk' 0 (some (proxySettings "/a/b" "host")) = some handler ∧
        handler.findProxy "/a/b/x" = .error .endIterator :=
  ⟨rfl, proxyBlock_settings (by decide), _, _, rfl, longestLocation_settings (by decide),
    List.Perm.refl _, rfl, rfl, rfl⟩

end GittyUp
