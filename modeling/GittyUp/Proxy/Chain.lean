import GittyUp.Http.Target
import GittyUp.Proxy.Relay
import GittyUp.Server.Lifecycle

/-!
# Proxies in a row

The host that a proxy asks may be a server whose proxy asks a further host. However
many servers stand in a row, the body of the last response comes back as it was, but
every one behind the first leaves a carriage return on the media type
(`relayed_in_row`). The requests have to fit the buffers of these servers, and what
they write has to be delivered.
-/

namespace GittyUp

open Lib

/-- What hosts answer at their ports, as for `Upstream`. -/
abbrev Network := Bytes → Int → Bytes → Except StdException (List Bytes)

/-- The host answers the request with the response, in one read or more. -/
def Delivers (net : Network) (host : Bytes) (port : Int) (request response : Bytes) : Prop :=
  ∃ reads, net host port request = .ok reads ∧ reads.flatten = response

/-! ## A server with a proxy -/

/-- A server, where the request of a session may be handed to the proxy. -/
structure ProxyServer where
  env : ServerSurroundings
  router : Router
  /-- What the handlers of other classes return or throw. -/
  handle : RouteHandler → Request → Except StdException Response
  staleStatus : Nat

namespace ProxyServer

variable (server : ProxyServer) (net : Network)

/-- `router::select_handler`. -/
def select (uri : Bytes) : Option RouteHandler :=
  selectRouteHandler server.env.stalePort server.router
    (server.env.order server.router.routeMap) uri

/-- `router::route_request`: `none` where the proxy reads what is not there. -/
def routeRequest (req : Request) : Option (Except StdException Response) := do
  let result ← match ← server.select req.uri with
    | .proxy handler =>
      match handler.handleRequest ⟨net, server.env.stalePort, server.staleStatus⟩
          server.env.beyond req with
      | .ok output => some (.ok output)
      | .error (.thrown e) => some (.error e)
      | .error _ => none
    | rh => some (server.handle rh req)
  some (result.map fun output => output.setHeaders (server.env.order server.router.headers))

/-- `session::handle_success` on the bytes that `async_read_some` has transferred: the
text that it writes. -/
def answer (text : Bytes) : Option Bytes :=
  let data := text.take maxLength
  let req := Request.mk' server.env.stale data
  if req.valid then do
    let result ← server.routeRequest net req
    some (handleSuccess (server.env.session result) data)
  else some (handleSuccess server.env.unrouted data)

end ProxyServer

/-! ## Paths -/

/-- The path that the proxy asks for. -/
def withSlash (path : Bytes) : Bytes :=
  if path.getLast? = some ('/' : Byte) then path else path ++ lit "/"

/-- The path is absolute or empty, and no byte of it ends a string or begins a query. -/
def IsPath (path : Bytes) : Prop :=
  (path = [] ∨ lit "/" <+: path) ∧ ∀ c ∈ path, c ≠ 0 ∧ c ≠ '?' ∧ c ≠ lf ∧ c ≠ cr

instance : DecidablePred IsPath := fun _ => inferInstanceAs (Decidable (_ ∧ _))

/-- A segment of a path. -/
def IsPathSegment (segment : Bytes) : Prop :=
  segment ≠ [] ∧ ∀ c ∈ segment, c ≠ '/' ∧ c ≠ 0 ∧ c ≠ '?' ∧ c ≠ lf ∧ c ≠ cr

instance : DecidablePred IsPathSegment := fun _ => inferInstanceAs (Decidable (_ ∧ _))

/-- The segments, and the path behind them. -/
def pathThrough (segments : List Bytes) (path : Bytes) : Bytes :=
  segments.foldr (fun segment path => lit "/" ++ segment ++ path) path

theorem pathThrough_cons (segment : Bytes) (segments : List Bytes) (path : Bytes) :
    pathThrough (segment :: segments) path =
      lit "/" ++ segment ++ pathThrough segments path := rfl

theorem length_le_pathThrough (segments : List Bytes) (path : Bytes) :
    segments.length ≤ (pathThrough segments path).length := by
  induction segments with
  | nil => exact Nat.zero_le _
  | cons segment segments ih =>
    have hslash : (lit "/").length = 1 := rfl
    simp only [pathThrough_cons, List.length_append, List.length_cons, hslash]
    omega

/-- Only the end of the path counts. -/
theorem withSlash_append {u : Bytes} (h : u.getLast? ≠ some ('/' : Byte)) (path : Bytes) :
    withSlash (u ++ path) = u ++ withSlash path := by
  unfold withSlash
  rw [List.getLast?_append]
  cases path.getLast? with
  | none => rw [Option.none_or, if_neg h, if_neg (by simp), List.append_assoc]
  | some last =>
    rw [Option.some_or]
    split_ifs
    · rfl
    · rw [List.append_assoc]

theorem withSlash_withSlash (path : Bytes) : withSlash (withSlash path) = withSlash path := by
  by_cases h : path.getLast? = some ('/' : Byte)
  · rw [show withSlash path = path from if_pos h, show withSlash path = path from if_pos h]
  · have hlast : (path ++ lit "/").getLast? = some ('/' : Byte) := List.getLast?_concat
    rw [show withSlash path = path ++ lit "/" from if_neg h]
    exact if_pos hlast

theorem IsPathSegment.getLast?_ne {segment : Bytes} (h : IsPathSegment segment) :
    segment.getLast? ≠ some ('/' : Byte) :=
  fun hlast => (h.2 _ (List.mem_of_getLast? hlast)).1 rfl

theorem withSlash_pathThrough {segments : List Bytes} (h : ∀ s ∈ segments, IsPathSegment s)
    (path : Bytes) : withSlash (pathThrough segments path) =
      pathThrough segments (withSlash path) := by
  induction segments with
  | nil => rfl
  | cons segment segments ih =>
    obtain ⟨hsegment, hsegments⟩ := List.forall_mem_cons.mp h
    have hlast : (lit "/" ++ segment).getLast? ≠ some ('/' : Byte) := by
      rw [List.getLast?_append_of_ne_nil _ hsegment.1]
      exact hsegment.getLast?_ne
    rw [pathThrough_cons, withSlash_append hlast, ih hsegments, pathThrough_cons]

theorem isPath_withSlash {path : Bytes} (h : IsPath path) : IsPath (withSlash path) := by
  unfold withSlash
  split_ifs with hlast
  · exact h
  · refine ⟨.inr ?_, List.forall_mem_append.mpr ⟨h.2, by decide⟩⟩
    rcases h.1 with rfl | hslash
    · exact List.prefix_rfl
    · exact hslash.trans (List.prefix_append _ _)

theorem isPath_pathThrough {segments : List Bytes} (h : ∀ s ∈ segments, IsPathSegment s)
    {path : Bytes} (hpath : IsPath path) : IsPath (pathThrough segments path) := by
  induction segments with
  | nil => exact hpath
  | cons segment segments ih =>
    obtain ⟨hsegment, hsegments⟩ := List.forall_mem_cons.mp h
    refine ⟨.inr ⟨segment ++ pathThrough segments path, by rw [pathThrough_cons, List.append_assoc]⟩,
      List.forall_mem_append.mpr ⟨List.forall_mem_append.mpr ⟨by decide, ?_⟩, (ih hsegments).2⟩⟩
    exact fun c hc => (hsegment.2 c hc).2

/-- The proxy cuts the first segment off. -/
theorem ReverseProxyHandler.findProxy_segment {handler : ReverseProxyHandler}
    {segment path next : Bytes} (h : IsPathSegment segment) (hpath : path = [] ∨ lit "/" <+: path)
    (hlookup : handler.location2proxy.lookup (lit "/" ++ segment) = some next) :
    handler.findProxy (lit "/" ++ segment ++ path) = .ok (next, withSlash path) := by
  obtain ⟨rest, hrest⟩ : ∃ rest, withSlash path = ('/' : Byte) :: rest := by
    unfold withSlash
    rcases hpath with rfl | ⟨rest, rfl⟩
    · exact ⟨[], rfl⟩
    · split_ifs
      · exact ⟨rest, rfl⟩
      · exact ⟨rest ++ lit "/", rfl⟩
  have hsegment : ∀ c ∈ segment, decide (c ≠ ('/' : Byte)) = true :=
    fun c hc => decide_eq_true (h.2 c hc).1
  show findProxy handler (('/' : Byte) :: (segment ++ path)) = _
  rw [findProxy]
  cases hlast : (segment ++ path).getLast? with
  | none => exact absurd (List.append_eq_nil_iff.mp (List.getLast?_eq_none_iff.mp hlast)).1 h.1
  | some last =>
    have huri : (if last ≠ ('/' : Byte) then segment ++ path ++ lit "/" else segment ++ path) =
        segment ++ withSlash path := by
      rw [← withSlash_append h.getLast?_ne, withSlash, hlast, ite_not]
      simp only [Option.some.injEq]
    dsimp only
    rw [huri, hrest, List.takeWhile_append_of_pos hsegment, List.dropWhile_append_of_pos hsegment,
      List.takeWhile_cons_of_neg (by simp), List.dropWhile_cons_of_neg (by simp), List.append_nil,
      hlookup]

/-! ## The media type -/

/-- Without parameters all of the line is taken, with its carriage return. -/
theorem ReverseProxyHandler.substr_contentType {media : Bytes} (hmedia : (';' : Byte) ∉ media)
    (hfits : media.length < 2 ^ 63) :
    substrBetween (lit "Content-Type: " ++ media ++ [] ++ [cr]) 14
      (findSemicolon (lit "Content-Type: " ++ media ++ [] ++ [cr])) = media ++ [cr] := by
  have hdrop : (lit "Content-Type: " ++ media ++ [] ++ [cr]).drop 14 = media ++ [cr] := by
    rw [List.append_nil, List.append_assoc]
    exact List.drop_left' rfl
  rw [findSemicolon_eq hmedia (.inl rfl), if_pos rfl, substrBetween, hdrop]
  refine List.take_of_length_le ?_
  rw [List.length_append, List.length_singleton]
  omega

/-- The media type that the proxy takes from a `Content-Type` line. -/
def relayedMedia (media params : Bytes) : Bytes :=
  if params = [] then media ++ [cr] else media

theorem LastContentType.relayedMedia {headers : List Bytes} {media params : Bytes}
    (h : LastContentType headers media params) (hmedia : 14 + media.length < 2 ^ 31)
    (mimeType : Bytes) : headers.foldl ReverseProxyHandler.nextMimeType mimeType =
      GittyUp.relayedMedia media params := by
  rw [h.mimeType, GittyUp.relayedMedia]
  split_ifs with hparams
  · subst hparams
    exact ReverseProxyHandler.substr_contentType h.media (by omega)
  · exact (ReverseProxyHandler.substr_contentType_iff h.media h.params (by omega)).mpr
      ⟨hparams, hmedia⟩

/-- Whatever carriage returns are on the media type, a proxy reads all of it. -/
theorem LastContentType.relayedMedia_spec {headers : List Bytes} {media params : Bytes}
    (h : LastContentType headers media params) (hlines : ∀ line ∈ headers, IsLine line)
    (hmedia : 14 + media.length < 2 ^ 31) {n : Nat} (hn : n ≤ maxLength) :
    (';' : Byte) ∉ GittyUp.relayedMedia media params ++ List.replicate n cr ∧
      lf ∉ GittyUp.relayedMedia media params ++ List.replicate n cr ∧
      (GittyUp.relayedMedia media params ++ List.replicate n cr).length < 2 ^ 63 := by
  have hmem : ∀ c ∈ GittyUp.relayedMedia media params ++ List.replicate n cr,
      c ∈ media ∨ c = cr := by
    intro c hc
    rcases List.mem_append.mp hc with hc | hc
    · unfold GittyUp.relayedMedia at hc
      split_ifs at hc
      · exact (List.mem_append.mp hc).imp_right List.mem_singleton.mp
      · exact .inl hc
    · exact .inr (List.eq_of_mem_replicate hc)
  refine ⟨fun hc => ?_, fun hc => ?_, ?_⟩
  · exact (hmem _ hc).elim h.media (by decide)
  · exact (hmem _ hc).elim (h.oneLine hlines).lf_not_mem (by decide)
  · have hrelayed : (GittyUp.relayedMedia media params).length ≤ media.length + 1 := by
      unfold GittyUp.relayedMedia
      split_ifs
      · rw [List.length_append, List.length_singleton]
      · exact Nat.le_succ _
    unfold maxLength at hn
    rw [List.length_append, List.length_replicate]
    omega

/-! ## One proxy -/

/-- A server whose proxy asks the host `next` for the URIs behind one segment. -/
structure ProxyHop where
  server : ProxyServer
  segment : Bytes
  handler : ReverseProxyHandler
  next : Bytes
  isSegment : IsPathSegment segment
  routes : ∀ uri, firstSegment uri = lit "/" ++ segment → server.select uri = some (.proxy handler)
  proxied : handler.location2proxy.lookup (lit "/" ++ segment) = some next
  headers : server.router.headers = ∅

theorem IsPathSegment.firstSegment {segment : Bytes} (h : IsPathSegment segment) {path : Bytes}
    (hpath : path = [] ∨ lit "/" <+: path) :
    GittyUp.firstSegment (lit "/" ++ segment ++ path) = lit "/" ++ segment := by
  have hsegment : ∀ c ∈ segment, decide (c ≠ ('/' : Byte)) = true :=
    fun c hc => decide_eq_true (h.2 c hc).1
  refine congrArg (('/' : Byte) :: ·) ((List.takeWhile_append_of_pos hsegment).trans ?_)
  rcases hpath with rfl | ⟨rest, rfl⟩
  · exact List.append_nil segment
  · exact (congrArg (segment ++ ·) (List.takeWhile_cons_of_neg (by decide))).trans
      (List.append_nil segment)

/-- The proxy has been created for this request. -/
theorem ProxyHop.redirect_eq (hop : ProxyHop) : hop.handler.redirect = false := by
  have hselect := hop.routes _ (hop.isSegment.firstSegment (.inl rfl))
  obtain ⟨⟨handlerClass, config⟩, -, hcreate⟩ := Option.bind_eq_some_iff.mp hselect
  cases handlerClass with
  | proxy =>
    obtain ⟨handler, hmake, hhandler⟩ := Option.map_eq_some_iff.mp hcreate
    obtain rfl := RouteHandler.proxy.inj hhandler
    obtain ⟨child, -, hconf⟩ := Option.bind_eq_some_iff.mp hmake
    exact ReverseProxyHandler.configure_redirect hconf
  | staticFile | meme =>
    obtain ⟨_, -, hhandler⟩ := Option.map_eq_some_iff.mp hcreate
    cases hhandler
  | echo | status | health | default => cases hcreate

/-- The response of a proxy, as another one reads it. -/
def relayedResponse (order : List (Bytes × Bytes)) (body : Bytes) : UpstreamResponse :=
  ⟨"HTTP/1.1", ('2', '0', '0'), "OK", order.map fieldText, body⟩

section Relayed

variable {mimeType body : Bytes} {order : List (Bytes × Bytes)}
  (horder : (relayed mimeType body).responseHeaders.IteratedAs order)

theorem message_relayedResponse :
    (relayedResponse order body).message = (relayed mimeType body).generateResponse order := by
  rw [Response.generateResponse_eq, terminated_cons, List.append_assoc (_ ++ [cr, lf]),
    List.append_assoc (_ ++ [cr, lf])]
  rfl

include horder

theorem mem_relayed {h : Bytes × Bytes} : h ∈ order ↔
    h = (lit "Content-Type", mimeType) ∨ h = (lit "Content-Length", decimal body.length) := by
  have hperm : order.Perm [(lit "Content-Length", decimal body.length),
    (lit "Content-Type", mimeType)] := horder
  rw [hperm.mem_iff, List.mem_pair, or_comm]

/-- Another proxy can read it, even where the media type ends with carriage returns. -/
theorem readable_relayedResponse (h : lf ∉ mimeType) : (relayedResponse order body).Readable where
  version := show lit "HTTP/1.1" ≠ [] ∧ ∀ d ∈ lit "HTTP/1.1", ¬ IsSpace d by decide
  digits := show ∀ d ∈ lit "200", IsDigit d by decide
  noRedirect := show digitsValue (lit "200") ≠ 301 ∧ digitsValue (lit "200") ≠ 302 by decide
  reason := show OneLine (lit "OK") by decide
  headers := by
    refine ⟨List.ne_nil_of_mem (List.mem_map_of_mem ((mem_relayed horder).mpr (.inl rfl))), ?_⟩
    intro line hline
    obtain ⟨header, hheader, rfl⟩ := List.mem_map.mp hline
    rcases (mem_relayed horder).mp hheader with rfl | rfl
    · have hname : lf ∉ lit "Content-Type" ++ lit ": " := by decide
      exact ⟨by simp [fieldText, lit], fun hmem => (List.mem_append.mp hmem).elim hname h⟩
    · have hname : lf ∉ lit "Content-Length" ++ lit ": " := by decide
      have hvalue := (oneLine_of_isDigit (decimal_spec body.length).2.1).lf_not_mem
      exact ⟨by simp [fieldText, lit], fun hmem => (List.mem_append.mp hmem).elim hname hvalue⟩

/-- The carriage return stays on the media type that is read there. -/
theorem mimeType_relayedResponse (h : (';' : Byte) ∉ mimeType) (hfits : mimeType.length < 2 ^ 63)
    (before : Bytes) :
    (relayedResponse order body).headers.foldl ReverseProxyHandler.nextMimeType before =
      mimeType ++ [cr] := by
  have hlast : LastContentType (order.map fieldText) mimeType [] := by
    refine ⟨?_, h, .inl rfl⟩
    obtain ⟨first, later, rfl⟩ := List.append_of_mem ((mem_relayed horder).mpr (.inl rfl))
    refine ⟨first.map fieldText, later.map fieldText, ?_, ?_⟩
    · rw [List.map_append, List.map_cons, List.append_nil]
      rfl
    · intro line hline
      obtain ⟨header, hheader, rfl⟩ := List.mem_map.mp hline
      rcases (mem_relayed horder).mp (List.mem_append_right _ (List.mem_cons_of_mem _ hheader))
        with rfl | rfl
      · have hnodup := horder.nodup
        rw [List.map_append, List.map_cons] at hnodup
        exact absurd (List.mem_map_of_mem hheader)
          (List.nodup_cons.mp (List.nodup_append.mp hnodup).2.1).1
      · rintro ⟨rest, hrest⟩
        simp [lit, fieldText] at hrest
  exact (hlast.mimeType before).trans (ReverseProxyHandler.substr_contentType h hfits)

end Relayed

/-- **The proxy answers** with the body that the next host delivers. -/
theorem ProxyHop.answer_eq (hop : ProxyHop) {net : Network} {text path : Bytes}
    (hpath : IsPath path)
    (hvalid : (Request.mk' hop.server.env.stale (text.take maxLength)).valid = true)
    (huri : (Request.mk' hop.server.env.stale (text.take maxLength)).uri =
      lit "/" ++ hop.segment ++ path) {r : UpstreamResponse} (hr : r.Readable)
    (hnext : Delivers net (cStr hop.next) hop.handler.portNum
      (ReverseProxyHandler.requestText (cStr hop.next) (withSlash path)) r.message) :
    hop.server.answer net text = some (responseText hop.server.env.unrouted
      (relayed (r.headers.foldl ReverseProxyHandler.nextMimeType hop.handler.mimeType)
        r.body)) := by
  obtain ⟨reads, hanswer, hreads⟩ := hnext
  have hnul : cStr (withSlash path) = withSlash path :=
    cStr_of_nulFree fun hmem => ((isPath_withSlash hpath).2 0 hmem).1 rfl
  have hselect := hop.routes _ (hop.isSegment.firstSegment hpath.1)
  have hexchange : hop.handler.sendGetRequest
      ⟨net, hop.server.env.stalePort, hop.server.staleStatus⟩ (cStr hop.next) (withSlash path) =
        .ok _ := ReverseProxyHandler.sendGetRequest_readable hr hreads hanswer
  have horder : hop.server.env.order hop.server.router.headers = [] := by
    rw [hop.headers]
    exact List.perm_nil.mp (hop.server.env.iterated ∅)
  have hroute : ∀ req : Request, req.uri = lit "/" ++ hop.segment ++ path →
      hop.server.routeRequest net req = some (.ok (relayed
        (r.headers.foldl ReverseProxyHandler.nextMimeType hop.handler.mimeType) r.body)) := by
    intro req huri
    unfold ProxyServer.routeRequest ReverseProxyHandler.handleRequest
      ReverseProxyHandler.constructGetRequest
    rw [huri, hselect, horder]
    simp only [bind, Except.bind, Option.bind,
      ReverseProxyHandler.findProxy_segment hop.isSegment hpath.1 hop.proxied, hnul, hexchange,
      hop.redirect_eq]
    rfl
  unfold ProxyServer.answer
  dsimp only
  rw [if_pos hvalid, hroute _ huri]
  exact congrArg some (handleSuccess_of_holder hvalid _)

/-! ## The row -/

/-- The servers stand behind each other, the first one at the host: each gets a request
for the rest of the path that fits its buffer, and what it answers is delivered; behind
the last one the host answers with `r`. -/
inductive InRow (net : Network) (r : UpstreamResponse) (path : Bytes) :
    Bytes → Int → List ProxyHop → Prop
  | last {host : Bytes} {port : Int} :
      Delivers net host port (ReverseProxyHandler.requestText host path) r.message →
      InRow net r path host port []
  | proxy {host : Bytes} {port : Int} {hop : ProxyHop} {hops : List ProxyHop} {request : Bytes} :
      request = ReverseProxyHandler.requestText host
        (pathThrough ((hop :: hops).map ProxyHop.segment) path) →
      request.length ≤ maxLength →
      (∀ text, hop.server.answer net request = some text → Delivers net host port request text) →
      InRow net r path (cStr hop.next) hop.handler.portNum hops →
      InRow net r path host port (hop :: hops)

theorem ProxyHop.isPathSegment (hops : List ProxyHop) :
    ∀ segment ∈ hops.map ProxyHop.segment, IsPathSegment segment := by
  intro segment hsegment
  obtain ⟨hop, -, rfl⟩ := List.mem_map.mp hsegment
  exact hop.isSegment

/-- The request of a proxy has its path as target. -/
theorem requestLine_requestText (host : Bytes) {path : Bytes} (h : path ≠ [] ∧ OneLine path) :
    ∃ rest, RequestLine (ReverseProxyHandler.requestText host path) "GET" path rest := by
  have hmethod : lit "GET" ≠ [] ∧ ∀ c ∈ lit "GET", IsWordChar c := by decide
  refine ⟨lit "Host: " ++ host ++ lit "\r\n" ++ lit "Accept: */*\r\n" ++ lit "Content-Base: " ++
    host ++ lit "\r\n" ++ lit "Connection: close\r\n\r\n",
    RequestLine.of_eq ⟨hmethod, h, ?_⟩⟩
  simp [ReverseProxyHandler.requestText, lit]

/-- A proxy understands another one's request. -/
theorem mk'_requestText (stale host : Bytes) {path : Bytes} (hne : path ≠ []) (h : IsPath path) :
    (Request.mk' stale (ReverseProxyHandler.requestText host path)).valid = true ∧
      (Request.mk' stale (ReverseProxyHandler.requestText host path)).uri = path := by
  obtain ⟨rest, hline⟩ := requestLine_requestText host ⟨hne, fun c hc => (h.2 c hc).2.2⟩
  refine ⟨(valid_iff_requestLine _ _).mpr ⟨_, _, _, hline⟩, ?_⟩
  rw [(mk'_of_requestLine stale hline).2.1]
  exact parseQueryString_uri_none stale fun hmem => (h.2 _ hmem).2.1 rfl

section Row

variable {net : Network} {r : UpstreamResponse} (hr : r.WellFormed) {media params : Bytes}
  (hlast : LastContentType r.headers media params) (hmedia : 14 + media.length < 2 ^ 31)
  {path : Bytes} (hpath : IsPath path)

include hr hlast hmedia hpath

/-- What comes back from the row can be read, and has one carriage return for each
server of it. -/
theorem InRow.delivers {host : Bytes} {port : Int} {hops : List ProxyHop}
    (h : InRow net r (withSlash path) host port hops) :
    ∃ r' : UpstreamResponse, r'.Readable ∧ r'.body = r.body ∧
      Delivers net host port (ReverseProxyHandler.requestText host
        (pathThrough (hops.map ProxyHop.segment) (withSlash path))) r'.message ∧
      ∀ mimeType, r'.headers.foldl ReverseProxyHandler.nextMimeType mimeType =
        relayedMedia media params ++ List.replicate hops.length cr := by
  induction h with
  | last hdelivers =>
    exact ⟨r, hr.readable, rfl, hdelivers, fun mimeType => by
      rw [hlast.relayedMedia hmedia, List.length_nil, List.replicate_zero, List.append_nil]⟩
  | @proxy host port hop hops request hrequest hfits hserves _ ih =>
    obtain ⟨r', hr', hbody, hdelivers, hmime⟩ := ih
    have hsegments := ProxyHop.isPathSegment hops
    have hrest := isPath_pathThrough hsegments (isPath_withSlash hpath)
    have hslash : withSlash (pathThrough (hops.map ProxyHop.segment) (withSlash path)) =
        pathThrough (hops.map ProxyHop.segment) (withSlash path) := by
      rw [withSlash_pathThrough hsegments, withSlash_withSlash]
    -- the server gets the whole request
    have hwhole : request.take maxLength = request := List.take_of_length_le hfits
    have hne : pathThrough ((hop :: hops).map ProxyHop.segment) (withSlash path) ≠ [] :=
      List.cons_ne_nil _ _
    have htarget : IsPath (pathThrough ((hop :: hops).map ProxyHop.segment) (withSlash path)) :=
      isPath_pathThrough (ProxyHop.isPathSegment (hop :: hops)) (isPath_withSlash hpath)
    obtain ⟨hvalid, huri⟩ := mk'_requestText hop.server.env.stale host hne htarget
    rw [← hrequest] at hvalid huri
    have hanswer := hop.answer_eq hrest (by rw [hwhole]; exact hvalid) (by rw [hwhole]; exact huri)
      hr' (by rw [hslash]; exact hdelivers)
    rw [hmime] at hanswer
    have hhops : hops.length ≤ maxLength := by
      have hpathLength := length_le_pathThrough ((hop :: hops).map ProxyHop.segment) (withSlash path)
      have hrequestLength := congrArg List.length hrequest
      simp only [ReverseProxyHandler.requestText, List.length_append] at hrequestLength
      rw [List.length_map, List.length_cons] at hpathLength
      omega
    obtain ⟨hsemicolon, hlf, hlength⟩ := hlast.relayedMedia_spec hr.headers.2 hmedia hhops
    have horder := hop.server.env.iterated
      (relayed (relayedMedia media params ++ List.replicate hops.length cr) r'.body).responseHeaders
    refine ⟨relayedResponse _ r'.body, readable_relayedResponse horder hlf, hbody, ?_, ?_⟩
    · have hserved := hserves _ hanswer
      rw [hrequest] at hserved
      rw [message_relayedResponse]
      exact hserved
    · intro mimeType
      rw [mimeType_relayedResponse horder hsemicolon hlength, List.length_cons,
        List.replicate_succ', List.append_assoc]

/-- **The first server of the row answers** with the body of the last response, and
with one carriage return on the media type for each further server. -/
theorem relayed_in_row {hop : ProxyHop} {hops : List ProxyHop}
    (hrow : InRow net r (withSlash path) (cStr hop.next) hop.handler.portNum hops) {text : Bytes}
    (hvalid : (Request.mk' hop.server.env.stale (text.take maxLength)).valid = true)
    (huri : (Request.mk' hop.server.env.stale (text.take maxLength)).uri =
      pathThrough ((hop :: hops).map ProxyHop.segment) path) :
    hop.server.answer net text = some (responseText hop.server.env.unrouted
      (relayed (relayedMedia media params ++ List.replicate hops.length cr) r.body)) := by
  obtain ⟨r', hr', hbody, hdelivers, hmime⟩ := hrow.delivers hr hlast hmedia hpath
  have hsegments := ProxyHop.isPathSegment hops
  have hanswer := hop.answer_eq (isPath_pathThrough hsegments hpath) hvalid huri hr'
    (by rw [withSlash_pathThrough hsegments]; exact hdelivers)
  rwa [hmime, hbody] at hanswer

end Row

/-! ## Two proxies -/

/-- A server with a proxy for one location. -/
def settingsServer (location host : Bytes) : ProxyServer where
  env := storedSurroundings
  router := ⟨[.mk ["handler", "proxy"] (some (proxySettings location host))], "",
    ⟨[⟨location, "proxy"⟩], List.nodupKeys_singleton _⟩, ∅⟩
  handle _ _ := .error .invalidArgument
  staleStatus := 0

theorem select_settingsServer {location host uri : Bytes} (hne : location ≠ [])
    (h : location <+: uri) : (settingsServer location host).select uri =
      some (.proxy ⟨(∅ : UnorderedMap Bytes Bytes).insertNew location host, "", 80, false⟩) := by
  have hlength : ¬ uri.length < location.length := Nat.not_lt.mpr h.length_le
  have hprefix : longestPrefixMatch [(location, lit "proxy")] uri = location := by
    rw [longestPrefixMatch, longestPrefixMatchLoop, if_neg hlength,
      if_pos ((prefixMatches_iff _ _).mpr h)]
    exact if_pos (List.length_pos_of_ne_nil hne)
  have hname : selectHandlerName (settingsServer location host).router
      [(location, lit "proxy")] uri = some "proxy" := by
    rw [selectHandlerName, hprefix]
    exact getRouteHandler_of_lookup (List.dlookup_cons_eq _ _ _)
  show (selectHandler (settingsServer location host).router [(location, lit "proxy")] uri).bind _ = _
  rw [selectHandler, hname]
  rfl

/-- It asks the host for what is behind the segment. -/
def settingsHop {segment : Bytes} (h : IsPathSegment segment) (host : Bytes) : ProxyHop where
  server := settingsServer (lit "/" ++ segment) host
  segment := segment
  handler := ⟨(∅ : UnorderedMap Bytes Bytes).insertNew (lit "/" ++ segment) host, "", 80, false⟩
  next := host
  isSegment := h
  routes uri huri := by
    refine select_settingsServer (List.cons_ne_nil _ _) ?_
    cases uri with
    | nil => cases huri
    | cons c uri =>
      rw [← huri]
      exact (List.prefix_cons_inj c).mpr (List.takeWhile_prefix _)
  proxied := by
    rw [UnorderedMap.lookup_insertNew, if_pos rfl]
    rfl
  headers := rfl

/-- The first server sends `/a` to the host `b`, and that one sends `/b` to `c`. -/
def firstHop : ProxyHop := settingsHop (show IsPathSegment "a" by decide) "b"

def secondHop : ProxyHop := settingsHop (show IsPathSegment "b" by decide) "c"

/-- The host `b` answers as a proxy for `c` does, and `c` with a page. -/
def rowNetwork : Network := fun host _ _ =>
  if host = lit "b" then
    .ok [responseText storedSurroundings.unrouted (relayed "text/html" "hi")]
  else .ok [(htmlResponse "; charset=utf-8").message]

/-- Behind two proxies the media type of the page has a carriage return. -/
theorem relayed_in_row_two :
    firstHop.server.answer rowNetwork "GET /a/b/x HTTP/1.1\r\n\r\n" =
      some (responseText storedSurroundings.unrouted (relayed "text/html\r" "hi")) := by
  have hwell : (htmlResponse "; charset=utf-8").WellFormed :=
    wellFormed_html (by decide) (by decide)
  have hlast : LastContentType (htmlResponse "; charset=utf-8").headers "text/html"
      "; charset=utf-8" := lastContentType_html (.inr ⟨_, rfl⟩)
  have hmedia : 14 + (lit "text/html").length < 2 ^ 31 := by decide
  have hpath : IsPath "/x" := by decide
  have hpage : Delivers rowNetwork "c" 80 (ReverseProxyHandler.requestText "c" "/x/")
      (htmlResponse "; charset=utf-8").message := ⟨_, rfl, List.append_nil _⟩
  have hrow : InRow rowNetwork (htmlResponse "; charset=utf-8") (withSlash "/x") "b" 80
      [secondHop] := by
    refine .proxy rfl (by decide) (fun text hanswer => ?_) (.last hpage)
    obtain ⟨hvalid, huri⟩ := mk'_requestText "" "b" (show lit "/b/x/" ≠ [] by decide) (by decide)
    have hwhole : (ReverseProxyHandler.requestText "b" "/b/x/").take maxLength =
        ReverseProxyHandler.requestText "b" "/b/x/" := List.take_of_length_le (by decide)
    rw [← hwhole] at hvalid huri
    have hserved := secondHop.answer_eq (show IsPath "/x/" by decide) hvalid huri
      hwell.readable hpage
    rw [hlast.relayedMedia hmedia] at hserved
    obtain rfl := Option.some.inj (hanswer.symm.trans hserved)
    exact ⟨_, rfl, List.append_nil _⟩
  have hvalid : (Request.mk' [] "GET /a/b/x HTTP/1.1\r\n\r\n").valid = true ∧
      (Request.mk' [] "GET /a/b/x HTTP/1.1\r\n\r\n").uri = "/a/b/x" := by decide +kernel
  exact relayed_in_row hwell hlast hmedia hpath (show InRow _ _ _ (cStr firstHop.next) _ _ from hrow)
    hvalid.1 hvalid.2

end GittyUp
