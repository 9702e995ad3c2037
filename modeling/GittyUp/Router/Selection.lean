import GittyUp.Config.RoundTrip
import GittyUp.Router.Router

/-!
# Which handler a URI is routed to

`RoutesTo` states the purpose of the router on the config tree alone: the
longest registered location that is a prefix of the URI decides, and among the
handler blocks that contain it the first one. `routes_registered` connects the
code: registration, the scan of the route map and the name lookup together
compute it, whatever the order in which the map is iterated.
-/

namespace GittyUp

open Lib

/-! ## The routing a config describes -/

/-- `statement` is a block `handler <name> { ... }`. -/
def HandlerBlock (statement : NginxConfigStatement) (name : Bytes) (child : NginxConfig) :
    Prop :=
  statement.tokens[0]? = some (lit "handler") ∧ statement.tokens[1]? = some name ∧
    statement.childBlock = some child

/-- The block contains `location <L>`. -/
def HasLocation (child : NginxConfig) (L : Bytes) : Prop :=
  ∃ s ∈ child, s.tokens[0]? = some (lit "location") ∧ s.tokens[1]? = some L

/-- The statement registers the location `L` (for the handler `name`). -/
def Binds (statement : NginxConfigStatement) (name L : Bytes) : Prop :=
  ∃ child, HandlerBlock statement name child ∧ HasLocation child L

/-- `L` is registered somewhere in the config. -/
def Registered (c : NginxConfig) (L : Bytes) : Prop := ∃ s ∈ c, ∃ name, Binds s name L

/-- `name` is the handler of the first block that contains `location L`. -/
def FirstHandler (c : NginxConfig) (L name : Bytes) : Prop :=
  ∃ before s after, c = before ++ s :: after ∧ Binds s name L ∧
    ∀ s' ∈ before, ∀ name', ¬ Binds s' name' L

/-- `L` is the longest registered location that is a prefix of `uri`. -/
def LongestLocation (c : NginxConfig) (uri L : Bytes) : Prop :=
  Registered c L ∧ L <+: uri ∧ ∀ L', Registered c L' → L' <+: uri → L'.length ≤ L.length

/-- The handler name a URI is to be served by. -/
def RoutesTo (c : NginxConfig) (uri name : Bytes) : Prop :=
  (∃ L, LongestLocation c uri L ∧ FirstHandler c L name) ∨
    ((∀ L, Registered c L → ¬ L <+: uri) ∧ name = "default")

/-- Every location statement of a child block has its location. -/
def LocationsComplete (c : NginxConfig) : Prop :=
  ∀ s ∈ c, ∀ child, s.childBlock = some child →
    ∀ l ∈ child, l.tokens[0]? = some (lit "location") → ∃ L, l.tokens[1]? = some L

/-- As much of `LocationsComplete` as the router reads: the blocks of handlers. -/
def HandlersComplete (c : NginxConfig) : Prop :=
  ∀ s ∈ c, ∀ name child, HandlerBlock s name child →
    ∀ l ∈ child, l.tokens[0]? = some (lit "location") → ∃ L, l.tokens[1]? = some L

theorem LocationsComplete.handlers {c : NginxConfig} (h : LocationsComplete c) :
    HandlersComplete c :=
  fun s hs _ child hblock => h s hs child hblock.2.2

/-- Every statement has a first token, also one level below. -/
def HasKeywords (c : NginxConfig) : Prop :=
  (∀ s ∈ c, ∃ keyword, s.tokens[0]? = some keyword) ∧
    ∀ s ∈ c, ∀ child, s.childBlock = some child →
      ∀ l ∈ child, ∃ keyword, l.tokens[0]? = some keyword

/-! ## Registration -/

/-- The locations of one handler block, in order. -/
def blockLocations (child : NginxConfig) : List Bytes :=
  child.filterMap fun s => if s.tokens[0]? = some (lit "location") then s.tokens[1]? else none

/-- What one statement of the router block registers. -/
def statementRoutes (s : NginxConfigStatement) : List (Bytes × Bytes) :=
  match s.tokens[0]?, s.tokens[1]?, s.childBlock with
  | some keyword, some name, some child =>
    if keyword = lit "handler" then (blockLocations child).map fun L => (L, name) else []
  | _, _, _ => []

/-- Register a list of routes. -/
def registerAll (routes : List (Bytes × Bytes)) (st : RouterState) : RouterState :=
  routes.foldl (fun st route => registerRoute st route.1 route.2) st

theorem mem_blockLocations {child : NginxConfig} {L : Bytes} :
    L ∈ blockLocations child ↔ HasLocation child L := by
  simp [blockLocations, HasLocation, List.mem_filterMap]

theorem registerLocations_eq (handlerKey : Bytes) (child : NginxConfig)
    (h : ∀ l ∈ child, l.tokens[0]? = some (lit "location") → ∃ L, l.tokens[1]? = some L)
    (st : RouterState) :
    registerLocations handlerKey child st =
      some (registerAll ((blockLocations child).map fun L => (L, handlerKey)) st) := by
  induction child generalizing st with
  | nil => rfl
  | cons l child ih =>
    obtain ⟨hl, hchild⟩ := List.forall_mem_cons.mp h
    unfold registerLocations
    split_ifs with hloc
    · obtain ⟨L, hL⟩ := hl hloc
      simp [hL, blockLocations, hloc, registerAll, ih hchild]
    · simp [blockLocations, hloc, ih hchild]

theorem registerAll_append (routes more : List (Bytes × Bytes)) (st : RouterState) :
    registerAll (routes ++ more) st = registerAll more (registerAll routes st) :=
  List.foldl_append

/-- One step of the outer loop registers the routes of its statement. -/
theorem registerHandlers_cons (s : NginxConfigStatement) (c : NginxConfig)
    (hs : ∀ name child, HandlerBlock s name child → ∀ l ∈ child,
      l.tokens[0]? = some (lit "location") → ∃ L, l.tokens[1]? = some L) (st : RouterState) :
    registerHandlers (s :: c) st = registerHandlers c (registerAll (statementRoutes s) st) := by
  rw [registerHandlers, statementRoutes]
  cases hkey : s.tokens[0]? with
  | none => rfl
  | some keyword =>
    cases hname : s.tokens[1]? with
    | none => rfl
    | some name =>
      cases hch : s.childBlock with
      | none => rfl
      | some child =>
        dsimp only
        split_ifs with hhandler
        · have hblock : HandlerBlock s name child := ⟨hhandler ▸ hkey, hname, hch⟩
          rw [registerLocations_eq name child (hs name child hblock)]
          rfl
        · rfl

theorem registerHandlers_eq (c : NginxConfig) (h : HandlersComplete c) (st : RouterState) :
    registerHandlers c st = some (registerAll (c.flatMap statementRoutes) st) := by
  induction c generalizing st with
  | nil => rfl
  | cons s c ih =>
    obtain ⟨hs, hc⟩ := List.forall_mem_cons.mp h
    rw [registerHandlers_cons s c hs, ih hc, List.flatMap_cons, registerAll_append]

theorem lookup_registerAll (routes : List (Bytes × Bytes)) (st : RouterState) (L : Bytes) :
    (registerAll routes st).router.routeMap.lookup L =
      (st.router.routeMap.lookup L).or (routes.lookup L) := by
  induction routes generalizing st with
  | nil => exact (Option.or_none).symm
  | cons route routes ih =>
    obtain ⟨uri, name⟩ := route
    have hone : (registerRoute st uri name).router.routeMap.lookup L =
        (st.router.routeMap.lookup L).or (if L = uri then some name else none) := by
      rw [← UnorderedMap.lookup_insertNew]
      unfold registerRoute UnorderedMap.insertNew
      split_ifs <;> rfl
    show (registerAll routes (registerRoute st uri name)).router.routeMap.lookup L = _
    rw [ih, hone, Option.or_assoc, List.lookup_cons]
    by_cases hL : L = uri
    · simp [hL]
    · rw [if_neg hL, beq_false_of_ne hL]
      rfl

theorem registerAll_config (routes : List (Bytes × Bytes)) (st : RouterState) :
    (registerAll routes st).router.config = st.router.config := by
  induction routes generalizing st with
  | nil => rfl
  | cons route routes ih =>
    show (registerAll routes (registerRoute st route.1 route.2)).router.config = _
    rw [ih]
    unfold registerRoute
    split_ifs <;> rfl

/-- A statement's routes for `L`, in the words of the config. -/
theorem lookup_statementRoutes (s : NginxConfigStatement) (L name : Bytes) :
    (statementRoutes s).lookup L = some name ↔ Binds s name L := by
  have hmap : ∀ (Ls : List Bytes) (n : Bytes),
      (Ls.map fun L => (L, n)).lookup L = some name ↔ n = name ∧ L ∈ Ls := by
    intro Ls n
    induction Ls with
    | nil => simp
    | cons L' Ls ih =>
      rw [List.map_cons, List.lookup_cons]
      by_cases hL : L = L'
      · simp [hL]
      · rw [beq_false_of_ne hL]
        simp [hL, ih]
  unfold statementRoutes Binds HandlerBlock
  split
  · next keyword n child hk hn hch =>
    split_ifs with hkey
    · simp only [hmap, hk, hn, hch, hkey, Option.some.injEq, true_and, mem_blockLocations]
      constructor
      · rintro ⟨rfl, hL⟩
        exact ⟨child, ⟨rfl, rfl⟩, hL⟩
      · rintro ⟨child', ⟨rfl, rfl⟩, hL⟩
        exact ⟨rfl, hL⟩
    · simp [hk, hkey]
  · next hno =>
    simp only [List.lookup_nil, reduceCtorEq, false_iff]
    rintro ⟨child, ⟨hk, hn, hch⟩, -⟩
    exact hno _ _ _ hk hn hch

/-- The route map binds `L` to the first block that registers it. -/
theorem lookup_routes (c : NginxConfig) (L name : Bytes) :
    (c.flatMap statementRoutes).lookup L = some name ↔ FirstHandler c L name := by
  induction c with
  | nil => simp [FirstHandler]
  | cons s c ih =>
    rw [List.flatMap_cons, List.lookup_append, Option.or_eq_some_iff, lookup_statementRoutes, ih]
    have hnone : (statementRoutes s).lookup L = none ↔ ∀ name', ¬ Binds s name' L := by
      simp only [Option.eq_none_iff_forall_ne_some, ne_eq, lookup_statementRoutes]
    rw [hnone]
    constructor
    · rintro (hs | ⟨hs, before, s', after, rfl, hs', hbefore⟩)
      · exact ⟨[], s, c, rfl, hs, by simp⟩
      · refine ⟨s :: before, s', after, rfl, hs', ?_⟩
        exact List.forall_mem_cons.mpr ⟨hs, hbefore⟩
    · rintro ⟨before, s', after, heq, hs', hbefore⟩
      cases before with
      | nil =>
        obtain ⟨rfl, rfl⟩ := List.cons.inj heq
        exact .inl hs'
      | cons s₀ before =>
        obtain ⟨rfl, rfl⟩ := List.cons.inj heq
        obtain ⟨hs₀, hbefore⟩ := List.forall_mem_cons.mp hbefore
        exact .inr ⟨hs₀, before, s', after, rfl, hs', hbefore⟩

theorem registered_iff (c : NginxConfig) (L : Bytes) :
    Registered c L ↔ ∃ name, FirstHandler c L name := by
  classical
  constructor
  · rintro ⟨s, hs, name, hb⟩
    rcases exists_cut (fun s => ∃ name, Binds s name L) c with hall |
      ⟨before, s', after, rfl, hbefore, name', hb'⟩
    · exact absurd ⟨name, hb⟩ (hall s hs)
    · exact ⟨name', before, s', after, rfl, hb', fun s₀ hs₀ n hn => hbefore s₀ hs₀ ⟨n, hn⟩⟩
  · rintro ⟨name, before, s, after, rfl, hb, -⟩
    exact ⟨s, by simp, name, hb⟩

/-! ## The scan of the route map -/

theorem prefixMatches_iff (mapping uri : Bytes) :
    prefixMatches mapping uri = true ↔ mapping <+: uri := by
  induction mapping generalizing uri with
  | nil => simp [prefixMatches]
  | cons c mapping ih =>
    cases uri with
    | nil => simp [prefixMatches]
    | cons d uri =>
      rw [prefixMatches, Bool.and_eq_true, ih, List.cons_prefix_cons, beq_iff_eq]

/-- The loop keeps the longest matching key seen so far. -/
theorem longestPrefixMatchLoop_spec (uri : Bytes) (order : List (Bytes × Bytes))
    (longest : Bytes) :
    (longestPrefixMatchLoop uri order longest = longest ∨
        ∃ name, (longestPrefixMatchLoop uri order longest, name) ∈ order ∧
          longestPrefixMatchLoop uri order longest <+: uri) ∧
      longest.length ≤ (longestPrefixMatchLoop uri order longest).length ∧
      ∀ p ∈ order, p.1 <+: uri →
        p.1.length ≤ (longestPrefixMatchLoop uri order longest).length := by
  induction order generalizing longest with
  | nil => simp [longestPrefixMatchLoop]
  | cons p order ih =>
    -- a key that does not match leaves `longest`, a matching one may replace it
    have skip : (¬ p.1 <+: uri) →
        longestPrefixMatchLoop uri (p :: order) longest =
          longestPrefixMatchLoop uri order longest := by
      intro hp
      have hm : ¬ prefixMatches p.1 uri = true := mt (prefixMatches_iff _ _).mp hp
      simp [longestPrefixMatchLoop, hm]
    have take : p.1 <+: uri →
        longestPrefixMatchLoop uri (p :: order) longest =
          longestPrefixMatchLoop uri order
            (if longest.length < p.1.length then p.1 else longest) := by
      intro hp
      have hm : prefixMatches p.1 uri = true := (prefixMatches_iff _ _).mpr hp
      have hlen : ¬ uri.length < p.1.length := Nat.not_lt.mpr hp.length_le
      simp [longestPrefixMatchLoop, hm, hlen]
    by_cases hp : p.1 <+: uri
    · rw [take hp]
      obtain ⟨hin, hle, hall⟩ := ih (if longest.length < p.1.length then p.1 else longest)
      have hlen : longest.length ≤ (if longest.length < p.1.length then p.1 else longest).length ∧
          p.1.length ≤ (if longest.length < p.1.length then p.1 else longest).length := by
        split_ifs <;> omega
      refine ⟨?_, by omega, ?_⟩
      · rcases hin with heq | ⟨name, hmem, hpre⟩
        · rw [heq]
          split_ifs
          · exact .inr ⟨p.2, List.mem_cons_self, hp⟩
          · exact .inl rfl
        · exact .inr ⟨name, List.mem_cons_of_mem _ hmem, hpre⟩
      · intro q hq hqpre
        rcases List.mem_cons.mp hq with rfl | hq
        · omega
        · exact hall q hq hqpre
    · rw [skip hp]
      obtain ⟨hin, hle, hall⟩ := ih longest
      refine ⟨?_, hle, ?_⟩
      · rcases hin with heq | ⟨name, hmem, hpre⟩
        · exact .inl heq
        · exact .inr ⟨name, List.mem_cons_of_mem _ hmem, hpre⟩
      · intro q hq hqpre
        rcases List.mem_cons.mp hq with rfl | hq
        · exact absurd hqpre hp
        · exact hall q hq hqpre

/-- What the scan returns, in any iteration order: the longest registered
location that is a prefix, or the empty string. -/
theorem longestPrefixMatch_spec {m : UnorderedMap Bytes Bytes} {order : List (Bytes × Bytes)}
    (horder : m.IteratedAs order) (uri : Bytes) :
    let longest := longestPrefixMatch order uri
    (longest = [] ∨ ∃ name, m.lookup longest = some name ∧ longest <+: uri) ∧
      ∀ L name, m.lookup L = some name → L <+: uri → L.length ≤ longest.length := by
  obtain ⟨hin, -, hall⟩ := longestPrefixMatchLoop_spec uri order []
  constructor
  · rcases hin with heq | ⟨name, hmem, hpre⟩
    · exact .inl heq
    · exact .inr ⟨name, (horder.mem_iff _ _).mp hmem, hpre⟩
  · intro L name hL hpre
    exact hall (L, name) ((horder.mem_iff _ _).mpr hL) hpre

/-! ## The classes by name -/

/-- Every class but the default is created under the name that is dispatched on,
and the proxy under its own name only. -/
theorem handlerClass_spec (handler : Bytes) :
    handlerClass handler = (HandlerClass.default, lit "default") ∨
      (handlerClass handler).2 = handler ∧
        ((handlerClass handler).1 = .proxy → handler = lit "proxy") := by
  let Spec (p : HandlerClass × Bytes) : Prop := p = (HandlerClass.default, lit "default") ∨
    p.2 = handler ∧ (p.1 = .proxy → handler = lit "proxy")
  have known {name : Bytes} {k : HandlerClass} {rest : HandlerClass × Bytes}
      (hk : k = .proxy → name = lit "proxy") (hrest : Spec rest) :
      Spec (if handler = name then (k, name) else rest) :=
    iteInduction (fun h => .inr ⟨h.symm, fun hp => h.trans (hk hp)⟩) fun _ => hrest
  exact known (by decide) <| known (by decide) <| known (by decide) <| known (by decide) <|
    known (by decide) <| known (by decide) <| known (fun _ => rfl) <| known (by decide) <|
    known (by decide) (.inl rfl)

theorem handlerClass_named {handler : Bytes} (h : (handlerClass handler).1 ≠ .default) :
    (handlerClass handler).2 = handler :=
  (handlerClass_spec handler).elim (fun hdefault => absurd (congrArg Prod.fst hdefault) h)
    And.left

theorem handlerClass_proxy {handler : Bytes} (h : (handlerClass handler).1 = .proxy) :
    (handlerClass handler).2 = "proxy" := by
  rcases handlerClass_spec handler with hdefault | ⟨hname, hproxy⟩
  · rw [hdefault] at h
    contradiction
  · exact hname.trans (hproxy h)

/-! ## The lookup by name -/

/-- The last block of the handler `name` is `child`. -/
def LastBlock (c : NginxConfig) (name : Bytes) (child : NginxConfig) : Prop :=
  ∃ before B after, c = before ++ B :: after ∧ HandlerBlock B name child ∧
    ∀ s ∈ after, ∀ child', ¬ HandlerBlock s name child'

/-- "Must have at least one element if the child block is not null." -/
def BlocksNamed (c : NginxConfig) : Prop :=
  ∀ s ∈ c, ∀ child, s.childBlock = some child → ∃ keyword, s.tokens[0]? = some keyword

/-- `P a b` holds for the last `a` in the list that it holds for with any `b`. -/
def LastSuch {α β : Type} (P : α → β → Prop) (l : List α) (b : β) : Prop :=
  ∃ before a after, l = before ++ a :: after ∧ P a b ∧ ∀ a' ∈ after, ∀ b', ¬ P a' b'

theorem lastSuch_cons {α β : Type} {P : α → β → Prop} {a : α} {l : List α} {b : β} :
    LastSuch P (a :: l) b ↔ LastSuch P l b ∨ P a b ∧ ∀ a' ∈ l, ∀ b', ¬ P a' b' := by
  constructor
  · rintro ⟨before, B, after, heq, hB, hlast⟩
    cases before with
    | nil =>
      obtain ⟨rfl, rfl⟩ := List.cons.inj heq
      exact .inr ⟨hB, hlast⟩
    | cons a₀ before =>
      obtain ⟨rfl, rfl⟩ := List.cons.inj heq
      exact .inl ⟨before, B, after, rfl, hB, hlast⟩
  · rintro (⟨before, B, after, rfl, hB, hlast⟩ | ⟨ha, hlast⟩)
    · exact ⟨a :: before, B, after, rfl, hB, hlast⟩
    · exact ⟨[], a, l, rfl, ha, hlast⟩

/-- Where it holds somewhere, there is a last place. -/
theorem exists_lastSuch {α β : Type} {P : α → β → Prop} {l : List α} {a : α} (ha : a ∈ l) {b : β}
    (h : P a b) : ∃ b', LastSuch P l b' := by
  induction l generalizing a b with
  | nil => contradiction
  | cons a₀ l ih =>
    by_cases hlater : ∃ a' ∈ l, ∃ b', P a' b'
    · obtain ⟨a', ha', b', h'⟩ := hlater
      obtain ⟨b'', hlast⟩ := ih ha' h'
      exact ⟨b'', lastSuch_cons.mpr (.inl hlast)⟩
    · rcases List.mem_cons.mp ha with rfl | ha
      · exact ⟨b, lastSuch_cons.mpr
          (.inr ⟨h, fun a' ha' b' h' => hlater ⟨a', ha', b', h'⟩⟩)⟩
      · exact absurd ⟨a, ha, b, h⟩ hlater

theorem lastBlock_cons {s : NginxConfigStatement} {c : NginxConfig} {name : Bytes}
    {child : NginxConfig} :
    LastBlock (s :: c) name child ↔
      LastBlock c name child ∨
        HandlerBlock s name child ∧ ∀ s' ∈ c, ∀ child', ¬ HandlerBlock s' name child' :=
  lastSuch_cons (P := fun s child => HandlerBlock s name child)

theorem blocksNamed_cons {s : NginxConfigStatement} {c : NginxConfig} :
    BlocksNamed (s :: c) ↔
      (∀ child, s.childBlock = some child → ∃ keyword, s.tokens[0]? = some keyword) ∧
        BlocksNamed c :=
  List.forall_mem_cons

/-- The loop ends with the last block of the name, or with the output it was
started on if there is none. -/
theorem getHandlerConfigLoop_iff (name : Bytes) (c : NginxConfig) (output : Option NginxConfig)
    (child : NginxConfig) :
    getHandlerConfigLoop name c output = some (some child) ↔
      BlocksNamed c ∧ (LastBlock c name child ∨
        output = some child ∧ ∀ s ∈ c, ∀ child', ¬ HandlerBlock s name child') := by
  induction c generalizing output with
  | nil => simp [getHandlerConfigLoop, BlocksNamed, LastBlock]
  | cons s c ih =>
    -- a statement that is not a block of the name is passed over
    have pass (hnot : ∀ child', ¬ HandlerBlock s name child') :
        (LastBlock c name child ∨
            output = some child ∧ ∀ s' ∈ c, ∀ child', ¬ HandlerBlock s' name child') ↔
          (LastBlock (s :: c) name child ∨
            output = some child ∧ ∀ s' ∈ s :: c, ∀ child', ¬ HandlerBlock s' name child') := by
      simp only [lastBlock_cons, List.forall_mem_cons, hnot, not_false_eq_true, implies_true,
        true_and, false_and, or_false]
    rw [getHandlerConfigLoop, blocksNamed_cons, and_assoc]
    cases hch : s.childBlock with
    | none =>
      have hnot : ∀ child', ¬ HandlerBlock s name child' := by
        rintro child' ⟨-, -, hch'⟩
        simp [hch] at hch'
      rw [and_iff_right (by simp), ← pass hnot]
      exact ih output
    | some child₀ =>
      cases hkey : s.tokens[0]? with
      | none =>
        -- the token list is read past its end
        simp
      | some keyword =>
        rw [and_iff_right (fun _ _ => ⟨keyword, rfl⟩)]
        simp only [Option.bind_eq_bind, Option.bind_some]
        split_ifs with hthis
        · have hs : HandlerBlock s name child₀ := ⟨by rw [hkey, hthis.1], hthis.2, hch⟩
          have hsame : HandlerBlock s name child ↔ child₀ = child := by
            refine ⟨fun h => Option.some.inj (hch.symm.trans h.2.2), ?_⟩
            rintro rfl
            exact hs
          have hsome : ¬ ∀ child', ¬ HandlerBlock s name child' := fun h => h _ hs
          rw [ih, lastBlock_cons, hsame]
          simp only [List.forall_mem_cons, hsome, false_and, and_false, or_false,
            Option.some.injEq]
        · have hnot : ∀ child', ¬ HandlerBlock s name child' := by
            rintro child' ⟨hk, hn, -⟩
            exact hthis ⟨Option.some.inj (hkey.symm.trans hk), hn⟩
          rw [← pass hnot]
          exact ih output

theorem getHandlerConfigLoop_total (name : Bytes) {c : NginxConfig} (h : BlocksNamed c)
    (output : Option NginxConfig) : ∃ result, getHandlerConfigLoop name c output = some result := by
  induction c generalizing output with
  | nil => exact ⟨output, rfl⟩
  | cons s c ih =>
    obtain ⟨hs, hc⟩ := blocksNamed_cons.mp h
    rw [getHandlerConfigLoop]
    cases hch : s.childBlock with
    | none => exact ih hc output
    | some child =>
      obtain ⟨keyword, hkey⟩ := hs child hch
      simp only [hkey, Option.bind_eq_bind, Option.bind_some]
      split_ifs
      · exact ih hc (some child)
      · exact ih hc output

/-- `get_handler_config` finds the last block of the name. -/
theorem getHandlerConfig_iff (r : Router) (name : Bytes) (child : NginxConfig) :
    getHandlerConfig r name = some (some child) ↔
      BlocksNamed r.config ∧ LastBlock r.config name child := by
  rw [getHandlerConfig, getHandlerConfigLoop_iff]
  simp

/-! ## The proxy fallback -/

theorem validProxy_isSome (name : Bytes) (c : NginxConfig)
    (hkeys : ∀ l ∈ c, ∃ keyword, l.tokens[0]? = some keyword)
    (hlocs : ∀ l ∈ c, l.tokens[0]? = some (lit "location") → ∃ L, l.tokens[1]? = some L) :
    ∃ valid, validProxy name c = some valid ∧ (valid = true → HasLocation c name) := by
  induction c with
  | nil => exact ⟨false, rfl, by simp⟩
  | cons l c ih =>
    obtain ⟨⟨keyword, hkey⟩, hkeys⟩ := List.forall_mem_cons.mp hkeys
    obtain ⟨hloc, hlocs⟩ := List.forall_mem_cons.mp hlocs
    obtain ⟨valid, hvalid, hhas⟩ := ih hkeys hlocs
    have later : valid = true → HasLocation (l :: c) name := fun h =>
      (hhas h).imp fun s ⟨hs, h⟩ => ⟨List.mem_cons_of_mem _ hs, h⟩
    rw [validProxy]
    simp only [hkey, Option.bind_eq_bind, Option.bind_some]
    split_ifs with hkw
    · obtain ⟨L, hL⟩ := hloc (by rw [hkey, hkw])
      simp only [hL, Option.bind_some]
      split_ifs with hname
      · exact ⟨true, rfl, fun _ => ⟨l, List.mem_cons_self, by rw [hkey, hkw], by rw [hL, hname]⟩⟩
      · exact ⟨valid, hvalid, later⟩
    · exact ⟨valid, hvalid, later⟩

theorem getRouteHandler_of_lookup {r : Router} {uri handler : Bytes}
    (h : r.routeMap.lookup uri = some handler) : getRouteHandler r uri = some handler := by
  unfold getRouteHandler
  rw [h]

/-- The fallback answers `default` for a URI that no block registers: a proxy
location would itself have been registered. -/
theorem getRouteHandler_default {r : Router} {uri : Bytes} (hkeys : HasKeywords r.config)
    (hlocs : HandlersComplete r.config) (hlookup : r.routeMap.lookup uri = none)
    (hno : ¬ Registered r.config uri) : getRouteHandler r uri = some "default" := by
  obtain ⟨result, hrun⟩ : ∃ result, getHandlerConfig r "proxy" = some result :=
    getHandlerConfigLoop_total _ (fun s hs _ _ => hkeys.1 s hs) none
  unfold getRouteHandler
  rw [hlookup, hrun]
  simp only [Option.bind_eq_bind, Option.bind_some]
  cases result with
  | none => rfl
  | some child =>
    obtain ⟨-, before, s, after, hc, hblock, -⟩ := (getHandlerConfig_iff r "proxy" child).mp hrun
    have hs : s ∈ r.config := by
      rw [hc]
      simp
    obtain ⟨valid, hvalid, hhas⟩ := validProxy_isSome uri child
      (hkeys.2 s hs child hblock.2.2) (hlocs s hs _ child hblock)
    have : valid = false := by
      refine Bool.eq_false_iff.mpr fun h => hno ⟨s, hs, _, child, hblock, hhas h⟩
    simp [hvalid, this]

/-! ## Routing end to end -/

/-- A config is within a tree when it is the tree or a block of one of its
statements, at any depth. -/
inductive Within (t : NginxConfig) : NginxConfig → Prop where
  | root : Within t t
  | block {c s child} : Within t c → s ∈ c → s.childBlock = some child → Within t child

theorem Within.allWellFormedWith {P : Bytes → Prop} {t c : NginxConfig} (h : Within t c)
    (ht : t.AllWellFormedWith P) : c.AllWellFormedWith P := by
  induction h with
  | root => exact ht
  | block _ hs hch ih => exact (ih.statement _ hs).child hch

theorem hasKeywords_of_wellFormed {P : Bytes → Prop} {c : NginxConfig}
    (h : c.AllWellFormedWith P) : HasKeywords c := by
  refine ⟨fun s hs => (h.statement s hs).keyword, ?_⟩
  intro s hs child hch l hl
  exact (((h.statement s hs).child hch).statement l hl).keyword

/-- After registration the route map binds every registered location to the
first block that contains it. -/
theorem lookup_registered (c : NginxConfig) (root : Bytes) (recorder : StatusRecorder)
    (L name : Bytes) :
    (registerAll (c.flatMap statementRoutes) ⟨Router.mk' c root, recorder⟩).router.routeMap.lookup
      L = some name ↔ FirstHandler c L name := by
  rw [lookup_registerAll, ← lookup_routes]
  show ((∅ : UnorderedMap Bytes Bytes).lookup L).or _ = _ ↔ _
  rw [AList.lookup_empty, Option.none_or]

theorem LongestLocation.unique {c : NginxConfig} {uri L L' : Bytes}
    (h : LongestLocation c uri L) (h' : LongestLocation c uri L') : L = L' := by
  have hlen : L.length = L'.length := Nat.le_antisymm (h'.2.2 L h.1 h.2.1) (h.2.2 L' h'.1 h'.2.1)
  have hpre := List.prefix_of_prefix_length_le h.2.1 h'.2.1 (Nat.le_of_eq hlen)
  exact List.IsPrefix.eq_of_length hpre hlen

theorem FirstHandler.unique {c : NginxConfig} {L name name' : Bytes}
    (h : FirstHandler c L name) (h' : FirstHandler c L name') : name = name' := by
  rw [← lookup_routes] at h h'
  exact Option.some.inj (h.symm.trans h')

/-- A URI is routed to one name at most. -/
theorem RoutesTo.unique {c : NginxConfig} {uri name name' : Bytes}
    (h : RoutesTo c uri name) (h' : RoutesTo c uri name') : name = name' := by
  rcases h with ⟨L, hL, hf⟩ | ⟨hno, rfl⟩ <;> rcases h' with ⟨L', hL', hf'⟩ | ⟨hno', rfl⟩
  · obtain rfl := hL.unique hL'
    exact hf.unique hf'
  · exact absurd hL.2.1 (hno' L hL.1)
  · exact absurd hL'.2.1 (hno L' hL'.1)
  · rfl

/-- A router whose map is the config's routes dispatches as the config says. -/
theorem selectHandlerName_routesTo {r : Router} (hkeys : HasKeywords r.config)
    (hlocs : HandlersComplete r.config)
    (hmap : ∀ L name, r.routeMap.lookup L = some name ↔ FirstHandler r.config L name)
    {order : List (Bytes × Bytes)} (horder : r.routeMap.IteratedAs order) (uri : Bytes) :
    ∃ name, selectHandlerName r order uri = some name ∧ RoutesTo r.config uri name := by
  have hreg : ∀ L, Registered r.config L ↔ ∃ name, r.routeMap.lookup L = some name := by
    intro L
    simp only [registered_iff, hmap]
  obtain ⟨hin, hall⟩ := longestPrefixMatch_spec horder uri
  have hlongest : ∀ L', Registered r.config L' → L' <+: uri →
      L'.length ≤ (longestPrefixMatch order uri).length := by
    intro L' hL' hpre
    obtain ⟨name, hname⟩ := (hreg L').mp hL'
    exact hall L' name hname hpre
  unfold selectHandlerName
  cases hlookup : r.routeMap.lookup (longestPrefixMatch order uri) with
  | some name =>
    -- the match may be the empty string, if that is registered
    have hpre : longestPrefixMatch order uri <+: uri := by
      rcases hin with hnil | ⟨_, _, hpre⟩
      · rw [hnil]
        exact List.nil_prefix
      · exact hpre
    refine ⟨name, getRouteHandler_of_lookup hlookup, .inl ⟨_, ⟨?_, hpre, hlongest⟩, ?_⟩⟩
    · exact (hreg _).mpr ⟨name, hlookup⟩
    · exact (hmap _ _).mp hlookup
  | none =>
    have hno : ¬ Registered r.config (longestPrefixMatch order uri) := by
      rw [hreg, hlookup]
      simp
    refine ⟨_, getRouteHandler_default hkeys hlocs hlookup hno, .inr ⟨?_, rfl⟩⟩
    -- nothing longer than the empty match, and the empty location is not registered
    have hnil : longestPrefixMatch order uri = [] := by
      rcases hin with hnil | ⟨name, hname, _⟩
      · exact hnil
      · rw [hlookup] at hname
        contradiction
    intro L hL hpre
    have hlen := hlongest L hL hpre
    rw [hnil, List.length_nil, Nat.le_zero, List.length_eq_zero_iff] at hlen
    rw [hnil] at hno
    exact hno (hlen ▸ hL)

/-- **Routing end to end**: on a router config out of a successful `Parse`,
registration succeeds, and for every URI and every iteration order of the route
map the name dispatched on is the one name the config routes the URI to. -/
theorem routes_registered {s : Bytes} {t c : NginxConfig} (hparse : parse s [] = (true, t))
    (hwithin : Within t c) (hlocs : LocationsComplete c) (root : Bytes)
    (recorder : StatusRecorder) :
    ∃ st, registerRoutesFromConfig ⟨Router.mk' c root, recorder⟩ = some st ∧
      ∀ uri order, st.router.routeMap.IteratedAs order →
        ∃ name, selectHandlerName st.router order uri = some name ∧
          ∀ name', RoutesTo c uri name' ↔ name' = name := by
  have hkeys : HasKeywords c :=
    hasKeywords_of_wellFormed (hwithin.allWellFormedWith (wellFormed_of_parse hparse).2)
  refine ⟨_, registerHandlers_eq c hlocs.handlers _, fun uri order horder => ?_⟩
  have hconfig := registerAll_config (c.flatMap statementRoutes) ⟨Router.mk' c root, recorder⟩
  change _ = c at hconfig
  obtain ⟨name, hname, hroutes⟩ := selectHandlerName_routesTo (by rwa [hconfig])
    (by rw [hconfig]; exact hlocs.handlers)
    (by rw [hconfig]; exact lookup_registered c root recorder) horder uri
  rw [hconfig] at hroutes
  exact ⟨name, hname, fun name' => ⟨fun h => h.unique hroutes, fun h => h ▸ hroutes⟩⟩

/-- Two handlers share `/a`; a longer URI below it goes to the first of them. -/
theorem routes_registered_echo :
    ∃ st, registerRoutesFromConfig
        ⟨Router.mk' [.mk ["handler", "echo"] (some [.mk ["location", "/a"] none]),
          .mk ["handler", "meme"] (some [.mk ["location", "/a"] none])] [], ⟨[], []⟩⟩ = some st ∧
      ∀ uri order, st.router.routeMap.IteratedAs order →
        ∃ name, selectHandlerName st.router order uri = some name ∧
          ∀ name', RoutesTo [.mk ["handler", "echo"] (some [.mk ["location", "/a"] none]),
            .mk ["handler", "meme"] (some [.mk ["location", "/a"] none])] uri name' ↔
              name' = name := by
  refine routes_registered (s := "handler echo{location /a;}handler meme{location /a;}")
    (t := [.mk ["handler", "echo"] (some [.mk ["location", "/a"] none]),
      .mk ["handler", "meme"] (some [.mk ["location", "/a"] none])]) ?_ .root ?_ [] ⟨[], []⟩
  · rfl
  · intro s hs child hch l hl _
    rcases List.mem_pair.mp hs with rfl | rfl <;> obtain rfl := Option.some.inj hch <;>
      obtain rfl := List.mem_singleton.mp hl <;> exact ⟨_, rfl⟩

end GittyUp
