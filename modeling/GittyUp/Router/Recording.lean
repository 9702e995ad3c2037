import GittyUp.Http.Wire
import GittyUp.Router.Handlers

/-!
# Which responses are recorded

`router::route_request` records a response that a handler has returned. When the
handler throws, the session answers in its `catch` block, behind the router's
back. `oneRecord_iff`: a request has its response recorded exactly when its
handler returns.
-/

namespace GittyUp

open Lib

/-- What serving a request depends on besides the state of the server. -/
structure RoutingSurroundings where
  /-- The handler of the class, created with the config and called: it may look
  at the recorder. -/
  handle : StatusRecorder → HandlerClass → Option NginxConfig → Request →
    Except StdException Response
  /-- The order in which the route map is iterated. -/
  routes : List (Bytes × Bytes)
  /-- The order in which the default headers are iterated. -/
  headers : List (Bytes × Bytes)
  /-- As in `Surroundings`. -/
  order : UnorderedMap Bytes Bytes → List (Bytes × Bytes)
  stale : Bytes
  beyond : Bytes

/-- What the sessions of a server share, and all that they have written. -/
structure ServerState where
  routing : RouterState
  written : List Bytes

section Serving

variable (env : RoutingSurroundings)

/-- `router::route_request`: the response or the exception, and the router with
the recorder. -/
def routeRequest (st : RouterState) (req : Request) :
    Option (Except StdException Response × RouterState) := do
  let (handlerClass, config) ← selectHandler st.router env.routes req.uri
  match env.handle st.recorder handlerClass config req with
  | .error e => some (.error e, st)
  | .ok output =>
    let st := { st with recorder := st.recorder.requestRecorder req.uri output.statusCode }
    -- the handler's name is looked up again for the log
    let _ ← getRouteHandler st.router (longestPrefixMatch env.routes req.uri)
    some (.ok (output.setHeaders env.headers), st)

/-- The surroundings of a session for which `route_request` gives the result. -/
def RoutingSurroundings.session (result : Except StdException Response) : Surroundings :=
  ⟨fun _ => result, env.order, env.stale, env.beyond⟩

/-- `session::handle_success` on the bytes transferred, with its effects. -/
def serveRead (st : ServerState) (data : Bytes) : Option ServerState :=
  let req := Request.mk' env.stale data
  if req.valid then do
    let (result, routing) ← routeRequest env st.routing req
    some ⟨routing, st.written ++ [handleSuccess (env.session result) data]⟩
  else
    some ⟨st.routing, st.written ++
      [handleInvalidRequest (env.session (.ok (Response.mk' 200 ""))) req]⟩

end Serving

/-! ## What is written -/

/-- The status code in a response text. -/
def writtenStatus (text : Bytes) : Nat := digitsValue ((text.drop 9).takeWhile (IsDigit ·))

/-- A response text shows the code of its response. -/
theorem writtenStatus_responseText (env : Surroundings) (r : Response) :
    writtenStatus (responseText env r) = r.statusCode := by
  obtain ⟨-, hdigits, hvalue⟩ := decimal_spec r.statusCode
  obtain ⟨rest, hrest⟩ : ∃ rest, responseText env r =
      lit "HTTP/1.1 " ++ (decimal r.statusCode ++ ((' ' : Byte) :: rest)) := by
    refine ⟨Response.statusWord r.statusCode ++ (lit "\r\n" ++
      (Response.generateHeaderLines (env.order r.responseHeaders) ++ r.responseBody)), ?_⟩
    unfold responseText Response.generateResponse Response.generateStatusLine
    simp only [List.append_assoc]
    rfl
  have hdrop : (responseText env r).drop 9 = decimal r.statusCode ++ ((' ' : Byte) :: rest) := by
    rw [hrest]
    rfl
  have hblank : ¬ IsDigit ' ' := by decide
  rw [writtenStatus, hdrop, List.takeWhile_append_of_pos fun d hd => decide_eq_true (hdigits d hd),
    List.takeWhile_cons_of_neg (by simpa using hblank), List.append_nil, hvalue]

/-- The handler that the router chooses for the request returns `resp`. -/
def HandlerReturns (env : RoutingSurroundings) (st : RouterState) (req : Request)
    (resp : Response) : Prop :=
  ∃ handlerClass config,
    selectHandler st.router env.routes req.uri = some (handlerClass, config) ∧
    env.handle st.recorder handlerClass config req = .ok resp

/-- The handler that the router chooses for the request throws `e`. -/
def HandlerThrows (env : RoutingSurroundings) (st : RouterState) (req : Request)
    (e : StdException) : Prop :=
  ∃ handlerClass config,
    selectHandler st.router env.routes req.uri = some (handlerClass, config) ∧
    env.handle st.recorder handlerClass config req = .error e

/-- The record of a read that is answered by `text`. -/
def answerRecord (env : RoutingSurroundings) (data text : Bytes) : Bytes × Nat :=
  ((Request.mk' env.stale data).uri, writtenStatus text)

/-- One read is answered by one response, and recorded with the code of that
response. -/
def OneRecord (env : RoutingSurroundings) (st : ServerState) (data : Bytes) : Prop :=
  ∃ st' text, serveRead env st data = some st' ∧ st'.written = st.written ++ [text] ∧
    st'.routing.recorder.urlResponseList =
      st.routing.recorder.urlResponseList ++ [answerRecord env data text]

/-! ## Routing a request -/

section Routing

variable {env : RoutingSurroundings}

/-- A handler that returns is recorded, and gets the default headers. -/
theorem routeRequest_returns {st : RouterState} {req : Request} {resp : Response}
    (h : HandlerReturns env st req resp) :
    routeRequest env st req = some (.ok (resp.setHeaders env.headers),
      { st with recorder := st.recorder.requestRecorder req.uri resp.statusCode }) := by
  obtain ⟨handlerClass, config, hselect, hhandle⟩ := h
  obtain ⟨handler, hname, -⟩ := Option.bind_eq_some_iff.mp hselect
  change getRouteHandler st.router (longestPrefixMatch env.routes req.uri) = some handler at hname
  unfold routeRequest
  rw [hselect]
  show (match env.handle st.recorder handlerClass config req with
    | .error e => _
    | .ok output => _) = _
  rw [hhandle]
  dsimp only
  rw [hname]
  rfl

/-- A handler that throws is not. -/
theorem routeRequest_throws {st : RouterState} {req : Request} {e : StdException}
    (h : HandlerThrows env st req e) : routeRequest env st req = some (.error e, st) := by
  obtain ⟨handlerClass, config, hselect, hhandle⟩ := h
  unfold routeRequest
  rw [hselect]
  show (match env.handle st.recorder handlerClass config req with
    | .error e => _
    | .ok output => _) = _
  rw [hhandle]

/-- What `route_request` can do: the handler cannot be chosen, it returns, or it
throws. -/
theorem routeRequest_cases (st : RouterState) (req : Request) :
    selectHandler st.router env.routes req.uri = none ∧ routeRequest env st req = none ∨
      (∃ resp, HandlerReturns env st req resp) ∨ ∃ e, HandlerThrows env st req e := by
  cases hselect : selectHandler st.router env.routes req.uri with
  | none =>
    refine .inl ⟨rfl, ?_⟩
    unfold routeRequest
    rw [hselect]
    rfl
  | some chosen =>
    obtain ⟨handlerClass, config⟩ := chosen
    cases hhandle : env.handle st.recorder handlerClass config req with
    | ok resp => exact .inr (.inl ⟨resp, handlerClass, config, hselect, hhandle⟩)
    | error e => exact .inr (.inr ⟨e, handlerClass, config, hselect, hhandle⟩)

/-! ## Serving a read -/

variable {st : ServerState} {data : Bytes}

/-- A valid request goes through the router. -/
theorem serveRead_valid (hvalid : (Request.mk' env.stale data).valid = true) :
    serveRead env st data = (routeRequest env st.routing (Request.mk' env.stale data)).map
      fun routed => ⟨routed.2, st.written ++ [handleSuccess (env.session routed.1) data]⟩ := by
  unfold serveRead
  rw [if_pos hvalid]
  cases routeRequest env st.routing (Request.mk' env.stale data) <;> rfl

/-- The text behind a handler that returns. -/
theorem handleSuccess_ok (hvalid : (Request.mk' env.stale data).valid = true) (resp : Response) :
    handleSuccess (env.session (.ok resp)) data =
      responseText (env.session (.ok resp)) resp := by
  unfold handleSuccess
  exact if_pos hvalid

/-- The text behind a handler that throws. -/
theorem handleSuccess_error (hvalid : (Request.mk' env.stale data).valid = true)
    (e : StdException) : handleSuccess (env.session (.error e)) data =
      handleError (env.session (.error e)) := by
  unfold handleSuccess
  exact if_pos hvalid

/-- A request whose handler returns is recorded with the code that is written. -/
theorem serveRead_returns (hvalid : (Request.mk' env.stale data).valid = true) {resp : Response}
    (h : HandlerReturns env st.routing (Request.mk' env.stale data) resp) :
    OneRecord env st data := by
  refine ⟨_, _, (serveRead_valid hvalid).trans (by rw [routeRequest_returns h]; rfl), rfl, ?_⟩
  rw [answerRecord, handleSuccess_ok hvalid, writtenStatus_responseText,
    (resp.setHeaders_eq env.headers).1]
  rfl

/-- A request whose handler throws is answered by the session, and the recorder
does not change. -/
theorem serveRead_throws (hvalid : (Request.mk' env.stale data).valid = true) {e : StdException}
    (h : HandlerThrows env st.routing (Request.mk' env.stale data) e) :
    serveRead env st data =
      some ⟨st.routing, st.written ++ [handleError (env.session (.error e))]⟩ := by
  rw [serveRead_valid hvalid, routeRequest_throws h, ← handleSuccess_error hvalid]
  rfl

theorem HandlerThrows.not_oneRecord (hvalid : (Request.mk' env.stale data).valid = true)
    {e : StdException} (h : HandlerThrows env st.routing (Request.mk' env.stale data) e) :
    ¬ OneRecord env st data := by
  rintro ⟨st', text, hserve, -, hlist⟩
  rw [serveRead_throws hvalid h] at hserve
  obtain rfl := Option.some.inj hserve
  have hlen := congrArg List.length hlist
  simp at hlen

/-- **One response, one record**: a valid request has its response recorded
exactly when the handler that the router chooses for it returns. -/
theorem oneRecord_iff (hvalid : (Request.mk' env.stale data).valid = true) :
    OneRecord env st data ↔
      ∃ resp, HandlerReturns env st.routing (Request.mk' env.stale data) resp := by
  constructor
  · intro h
    rcases routeRequest_cases st.routing (Request.mk' env.stale data) with
      ⟨-, hnone⟩ | hreturns | ⟨e, hthrows⟩
    · obtain ⟨st', text, hserve, _⟩ := h
      rw [serveRead_valid hvalid, hnone] at hserve
      contradiction
    · exact hreturns
    · exact absurd h (hthrows.not_oneRecord hvalid)
  · rintro ⟨resp, h⟩
    exact serveRead_returns hvalid h

end Routing

/-! ## A search that cannot be decoded -/

/-- The meme handler, with a database whose answers do not matter. -/
def memeOutcome (req : Request) : Except StdException Response :=
  match handleRequest "" req with
  | .ret resp => .ok resp
  | .abort (.exception e) => .error e
  | _ => .ok (typedResponse 200 "[]" "application/json")

/-- A server with the meme handler alone. -/
def memeServer : ServerState where
  routing := ⟨memeRouter, ⟨[], []⟩⟩
  written := []

/-- Its surroundings. -/
def memeSurroundings : RoutingSurroundings :=
  ⟨fun _ _ _ req => memeOutcome req, [("/memes", "meme")], [], fun _ => [], "", ""⟩

/-- The redirection to a page is recorded. -/
theorem oneRecord_redirect :
    OneRecord memeSurroundings memeServer "GET /memes/view/x HTTP/1.1\r\n\r\n" :=
  (oneRecord_iff (by decide)).mpr ⟨redirectRequest "x", .meme, _, rfl, rfl⟩

/-- A search for `%zz` is answered with the code 500, and not recorded. -/
theorem search_not_oneRecord :
    (Request.mk' [] "GET /memes/search/%zz HTTP/1.1\r\n\r\n").valid = true ∧
      ¬ OneRecord memeSurroundings memeServer "GET /memes/search/%zz HTTP/1.1\r\n\r\n" := by
  have hvalid : (Request.mk' [] "GET /memes/search/%zz HTTP/1.1\r\n\r\n").valid = true := by decide
  have hthrows : HandlerThrows memeSurroundings memeServer.routing
      (Request.mk' [] "GET /memes/search/%zz HTTP/1.1\r\n\r\n")
      (.runtimeError "stream decode failure") := ⟨.meme, _, rfl, rfl⟩
  exact ⟨hvalid, hthrows.not_oneRecord hvalid⟩

end GittyUp
