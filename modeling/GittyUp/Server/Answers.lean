import GittyUp.Http.Reading
import GittyUp.Router.Splitting
import GittyUp.Server.Lifecycle

/-!
# What the sessions answer

Whatever the interleaving, a session that holds a response holds the one that the
handler of its own URI has returned to its own request, and the text that it hands to
`async_write` is the answer of `session::handle_success` to what it has read
(`sessions_answer`). That text can be read as a response, with all default headers
(`answers_readable`). Whether its bytes get to the client is another matter: they are
destroyed before they are written (`writes_without_data`).
-/

namespace GittyUp

open Lib

variable {env : ServerSurroundings} {router : Router}

/-! ## Which access leads to a phase -/

namespace ServerPhase

variable {p : ServerPhase} {e : ServerAccess} {data text : Bytes} {resp : Response}

theorem advance_received (h : p.advance env e = some (.received data)) :
    p = .reading ∧ e = .data data := by
  unfold advance at h
  split at h <;> try split_ifs at h
  all_goals simp_all

theorem advance_holding (h : p.advance env e = some (.holding data resp)) :
    p = .received data ∧ e = .holder resp ∧ (Request.mk' env.stale data).valid = true := by
  unfold advance at h
  split at h <;> try split_ifs at h
  all_goals simp_all

/-- A text is written for a read that has failed, without a response, or with one. -/
theorem advance_writing (h : p.advance env e = some (.writing text)) :
    e = .asyncWrite text ∧ ((p = .reading ∧ text = handleError env.unrouted) ∨
      (∃ data, p = .received data ∧ text = handleSuccess env.unrouted data) ∨
      ∃ data resp, p = .holding data resp ∧
        text = handleSuccess (env.session (.ok resp)) data) := by
  unfold advance at h
  split at h <;> try split_ifs at h
  all_goals simp_all

end ServerPhase

/-! ## The answer to what was read -/

/-- The text is the answer to what the session has last read: the error if nothing was,
and else what `session::handle_success` writes when `route_request` gives what the
handler of the URI has returned or thrown. -/
inductive Answers (env : ServerSurroundings) (router : Router) (told : ServerTold)
    (session : Nat) : Bytes → Prop
  | unread : LastRead told session none →
      Answers env router told session (handleError env.unrouted)
  | refused {data : Bytes} : HasRead told session data →
      (Request.mk' env.stale data).valid = false →
      Answers env router told session (handleSuccess env.unrouted data)
  | routed {data : Bytes} {result : Except StdException Response} : HasRead told session data →
      (Request.mk' env.stale data).valid = true →
      Handled env router told (Request.mk' env.stale data) result →
      Answers env router told session (handleSuccess (env.session result) data)

/-- What the phase of a session tells about the answers of the environment. -/
def ServerKnown (env : ServerSurroundings) (router : Router) (told : ServerTold) :
    ServerObject → ServerPhase → Prop
  | .session session, .received data => HasRead told session data
  | .session session, .holding data resp => HasRead told session data ∧
      (Request.mk' env.stale data).valid = true ∧
        Handled env router told (Request.mk' env.stale data) (.ok resp)
  | .session session, .writing text => Answers env router told session text
  | _, _ => True

/-! ### What is known stays known -/

section More

variable {told told' : ServerTold} {session : Nat} {a : Σ q : ServerQuestion, q.Reply}

theorem concerns_session (env : ServerSurroundings) (router : Router) (session : Nat) :
    (serverDiscipline env router).concerns (.session session) = fun a => a.1.isRead session := by
  funext ⟨q, r⟩
  cases q <;> simp [Discipline.concerns, serverDiscipline, ServerQuestion.isRead]

/-- Answers to other questions have come. -/
theorem LastRead.append {result : ReadResult} (h : LastRead told session result)
    (ha : a.1.isRead session = false) : LastRead (told ++ [a]) session result := by
  rw [LastRead, List.filter_append, List.filter_singleton, ha, cond_false, List.append_nil]
  exact h

theorem LastRead.of_suffix {result : ReadResult} (h : LastRead told session result)
    (hlast : told.filter (fun a => a.1.isRead session) <:+
      told'.filter fun a => a.1.isRead session) : LastRead told' session result := by
  obtain ⟨before, hbefore⟩ := hlast
  rw [LastRead, ← hbefore, List.getLast?_append, h, Option.some_or]

theorem HasRead.append {data : Bytes} (h : HasRead told session data)
    (ha : a.1.isRead session = false) : HasRead (told ++ [a]) session data := by
  obtain ⟨bytes, hlast, hdata⟩ := h
  exact ⟨bytes, hlast.append ha, hdata⟩

theorem Handled.mono (hsub : told ⊆ told') {req : Request} {result : Except StdException Response}
    (h : Handled env router told req result) : Handled env router told' req result := by
  obtain ⟨rh, hselect, hresult⟩ := h
  refine ⟨rh, hselect, ?_⟩
  cases result with
  | ok resp =>
    obtain ⟨output, hmem, hresp⟩ := hresult
    exact ⟨output, hsub hmem, hresp⟩
  | error e => exact hsub hresult

theorem Answers.append {text : Bytes} (h : Answers env router told session text)
    (ha : a.1.isRead session = false) : Answers env router (told ++ [a]) session text := by
  cases h with
  | unread hlast => exact .unread (hlast.append ha)
  | refused hread hvalid => exact .refused (hread.append ha) hvalid
  | routed hread hvalid hhandled =>
    exact .routed (hread.append ha) hvalid (hhandled.mono (List.subset_append_left _ _))

/-- A session is read from while it is in one phase only. -/
theorem ServerKnown.append {o : ServerObject} {p : ServerPhase}
    (h : ServerKnown env router told o p)
    (hphase : ∀ p', (serverDiscipline env router).about a.1 = some (o, p') → p' = p) :
    ServerKnown env router (told ++ [a]) o p := by
  cases o with
  | acceptor | data => trivial
  | session session =>
    have hother (hp : ServerPhase.reading ≠ p) : a.1.isRead session = false := by
      obtain ⟨q, r⟩ := a
      cases q with
      | read session' =>
        refine decide_eq_false fun heq => hp (hphase _ ?_)
        rw [heq]
        rfl
      | signal | accept | write | shutdown | close | handle => rfl
    cases p with
    | received data => exact HasRead.append h (hother nofun)
    | holding data resp =>
      exact ⟨h.1.append (hother nofun), h.2.1, h.2.2.mono (List.subset_append_left _ _)⟩
    | writing text => exact Answers.append h (hother nofun)
    | acceptor | copied | opened | connecting | reading | shut | closed => trivial

/-- An access that was duly made by what its callback was told is so by all that was
asked. -/
theorem duly_mono (hsub : told ⊆ told') {o : ServerObject} {p : ServerPhase} {e : ServerAccess}
    (hlast : told.filter ((serverDiscipline env router).concerns o) <:+
      told'.filter ((serverDiscipline env router).concerns o))
    (h : (serverDiscipline env router).duly told o p e) :
    (serverDiscipline env router).duly told' o p e := by
  cases o with
  | acceptor | data => trivial
  | session session =>
    rw [concerns_session] at hlast
    cases p with
    | reading =>
      cases e with
      | data data =>
        obtain ⟨bytes, hread, hdata⟩ := h
        exact ⟨bytes, hread.of_suffix hlast, hdata⟩
      | asyncWrite text => exact LastRead.of_suffix h hlast
      | asyncAccept | socket | remoteEndpoint | asyncReadSome | holder | copy | shutdown
      | close => trivial
    | received data =>
      cases e with
      | holder resp =>
        have hhandled : Handled env router told (Request.mk' env.stale data) (.ok resp) := h
        exact hhandled.mono hsub
      | asyncWrite text =>
        intro hvalid
        obtain ⟨e, hhandled⟩ := h hvalid
        exact ⟨e, hhandled.mono hsub⟩
      | data | asyncAccept | socket | remoteEndpoint | asyncReadSome | copy | shutdown
      | close => trivial
    | holding | writing | acceptor | copied | opened | connecting | shut | closed => trivial

end More

/-- One access. -/
theorem ServerKnown.access {told : ServerTold} {o : ServerObject} {p p' : ServerPhase}
    {e : ServerAccess} (h : ServerKnown env router told o p)
    (hduly : (serverDiscipline env router).duly told o p e)
    (hp : p.advance env e = some p') : ServerKnown env router told o p' := by
  cases o with
  | acceptor | data => trivial
  | session session =>
    cases p' with
    | received data =>
      obtain ⟨rfl, rfl⟩ := ServerPhase.advance_received hp
      exact hduly
    | holding data resp =>
      obtain ⟨rfl, rfl, hvalid⟩ := ServerPhase.advance_holding hp
      exact ⟨h, hvalid, hduly⟩
    | writing text =>
      obtain ⟨rfl, hcases⟩ := ServerPhase.advance_writing hp
      rcases hcases with ⟨rfl, rfl⟩ | ⟨data, rfl, rfl⟩ | ⟨data, resp, rfl, rfl⟩
      · exact .unread hduly
      · cases hvalid : (Request.mk' env.stale data).valid with
        | false => exact .refused h hvalid
        | true =>
          obtain ⟨e, hhandled⟩ := hduly hvalid
          -- whatever the exception is
          have htext : handleSuccess env.unrouted data =
              handleSuccess (env.session (.error e)) data :=
            (handleSuccess_of_throw hvalid .invalidArgument).trans
              (handleSuccess_of_throw hvalid e).symm
          show Answers env router told session (handleSuccess env.unrouted data)
          rw [htext]
          exact .routed h hvalid hhandled
      · exact .routed h.1 h.2.1 h.2.2
    | acceptor | copied | opened | connecting | reading | shut | closed => trivial

section Runs

variable {ι : Type} [DecidableEq ι] {routing : RouterState} {address : Nat} {s : ServerRun ι}
  (h : Reachable (ReactorState.SomeStep (serverProtocol env) (Async.handler env))
    (serverStart ι routing address) s)

include h

theorem serverKnown_of_reachable {o : ServerObject} {p : ServerPhase}
    (ho : s.objects o = some p) : ServerKnown env routing.router s.asked o p := by
  refine ReactorState.known_of_reachable (K := ServerKnown env routing.router)
    respects_handler owned_serverStart ?_ ?_ (fun _ _ _ _ hphase hknown => hknown.append hphase)
    (fun _ _ _ _ _ hsub => duly_mono hsub) (fun _ _ _ _ _ hknown => hknown.access) h o p ho
  · intro o p ho
    cases o with
    | acceptor | data => trivial
    | session session =>
      by_cases hsession : session = address
      · subst hsession
        simp only [serverStart, ServerOperation.needs, ne_eq, reduceCtorEq, not_false_eq_true,
          Function.update_of_ne, only_self, Option.some.injEq] at ho
        exact ho ▸ trivial
      · simp [serverStart, ServerOperation.needs, only, hsession] at ho
  · intro _ o
    cases o <;> trivial

/-- **Every session answers its own request**, whatever the interleaving: the response
that it holds is the one that the handler of its URI has returned to what the session
has last read, and what it writes is what `session::handle_success` answers to that. -/
theorem sessions_answer (session : Nat) :
    (∀ data resp, s.objects (.session session) = some (.holding data resp) →
      HasRead s.asked session data ∧
        Handled env routing.router s.asked (Request.mk' env.stale data) (.ok resp)) ∧
      ∀ text, s.objects (.session session) = some (.writing text) →
        Answers env routing.router s.asked session text := by
  constructor
  · intro data resp ho
    obtain ⟨hread, -, hhandled⟩ := serverKnown_of_reachable h ho
    exact ⟨hread, hhandled⟩
  · exact fun text ho => serverKnown_of_reachable h ho

end Runs

/-! ## A request that is echoed -/

/-- A session writes the text. -/
def ServerPhase.writes (text : Bytes) : ServerPhase → Bool
  | .writing text' => text' = text
  | _ => false

theorem ServerPhase.writes_iff {text : Bytes} {p : ServerPhase} :
    p.writes text = true ↔ p = .writing text := by
  cases p <;> simp [writes]

/-- A run in which every handler echoes the request. -/
def echoedMoves : List (ReactorState.Move Bool ServerQuestion.Reply) :=
  (echoAnswered true).map fun m => { m with
    reply := fun q => match q with
      | .handle _ req => HandlerOutcome.returned (echoHandleRequest "" req)
      | .signal => echoReply true .signal
      | .accept newSession => echoReply true (.accept newSession)
      | .read session => echoReply true (.read session)
      | .write session => echoReply true (.write session)
      | .shutdown session => echoReply true (.shutdown session)
      | .close session => echoReply true (.close session) }

/-- The text that is written in that run. -/
def echoedText : Bytes :=
  "HTTP/1.1 200 OK\r\nContent-Type: text/plain\r\n\r\nGET /echo HTTP/1.1\r\n\r\n"

/-- The echo of the request that was read. -/
theorem sessions_answer_echo : ∃ s,
    Reachable (ReactorState.SomeStep (serverProtocol storedSurroundings)
      (Async.handler storedSurroundings)) (serverStart Bool echoRouting 1) s ∧
    Answers storedSurroundings echoRouting.router s.asked 1 echoedText := by
  obtain ⟨s, hs, hwrites⟩ := exists_of_echoRun
    (P := fun s => (s.objects (.session 1)).any (·.writes echoedText) = true) echoedMoves
    (by decide +kernel)
  obtain ⟨p, hp, hwrites⟩ := (Option.any_eq_true _ _).mp hwrites
  obtain rfl := ServerPhase.writes_iff.mp hwrites
  exact ⟨s, hs, (sessions_answer hs 1).2 _ hp⟩

/-! ## What the text says -/

/-- The handlers have returned what their classes return; of a proxy, a response
whose headers fit into lines. -/
def HandlersReply (henv : HandlerSurroundings) (stalePort : Int) (told : ServerTold) : Prop :=
  ∀ (rh : RouteHandler) (req : Request) (output : Response),
    ⟨.handle rh req, HandlerOutcome.returned output⟩ ∈ told →
      (∃ handlerClass config, createHandler stalePort henv.serverRoot handlerClass config = some rh ∧
        Returns henv req handlerClass config output) ∨ (∃ proxy, rh = .proxy proxy) ∧ output.Clean

/-- What the text of a session says to whoever reads it as a client does: an error, the
refused request, or the status, the body and the headers that the handler of its URI has
returned, with the default headers in their place. -/
inductive AnswerSays (env : ServerSurroundings) (router : Router) (told : ServerTold)
    (session : Nat) : ReadResponse → Prop
  | error : AnswerSays env router told session ⟨statusText 500,
      [("Content-Type", "text/plain")],
      "Oops! Looks like something went wrong on our side. Please try again later."⟩
  | refused {data : Bytes} : HasRead told session data →
      (Request.mk' env.stale data).valid = false →
      AnswerSays env router told session ⟨statusText 400, [("Content-Type", "text/plain")],
        cString (Request.mk' env.stale data).rawRequest env.beyond⟩
  | response {data : Bytes} {rh : RouteHandler} {output : Response}
      {headers : List (Bytes × Bytes)} : HasRead told session data →
      (Request.mk' env.stale data).valid = true →
      selectRouteHandler env.stalePort router (env.order router.routeMap)
        (Request.mk' env.stale data).uri = some rh →
      ⟨.handle rh (Request.mk' env.stale data), HandlerOutcome.returned output⟩ ∈ told →
      (headers.map Prod.fst).Nodup →
      (∀ name value, (name, value) ∈ headers ↔
        (router.headers.lookup name).or (output.responseHeaders.lookup name) = some value) →
      AnswerSays env router told session
        ⟨statusText output.statusCode, headers, output.responseBody⟩

/-- A response with the one header that the session sets. -/
theorem readResponse_plain (env : ServerSurroundings) (code : Nat) (body : Bytes) :
    readResponse (responseText env.unrouted
      ((Response.mk' code body).setHeader "Content-Type" "text/plain")) =
      some ⟨statusText code, [("Content-Type", "text/plain")], body⟩ := by
  have horder := env.iterated
    ((Response.mk' code body).setHeader "Content-Type" "text/plain").responseHeaders
  have hsingle : env.order ((Response.mk' code body).setHeader "Content-Type"
      "text/plain").responseHeaders = [(lit "Content-Type", lit "text/plain")] :=
    List.perm_singleton.mp horder
  have hread := readResponse_generateResponse
    ((Response.clean_mk' code body).setHeader (isHeader_contentType (by decide))) horder
  rw [hsingle] at hread
  show readResponse (Response.generateResponse _ (env.order _)) = _
  rw [hsingle]
  exact hread

/-- The default headers take the place of the handler's. -/
theorem mem_order_setHeaders {headers : UnorderedMap Bytes Bytes} (output : Response)
    (name value : Bytes) :
    (name, value) ∈ env.order (output.setHeaders (env.order headers)).responseHeaders ↔
      (headers.lookup name).or (output.responseHeaders.lookup name) = some value := by
  rw [(env.iterated _).mem_iff]
  cases hlookup : headers.lookup name with
  | some default =>
    have hmem := ((env.iterated headers).mem_iff name default).mpr hlookup
    rw [output.lookup_setHeaders_of_mem (env.iterated headers).nodup hmem, Option.some_or]
  | none =>
    rw [output.lookup_setHeaders_of_not_mem, Option.none_or]
    intro hname
    obtain ⟨⟨_, default⟩, hmem, rfl⟩ := List.mem_map.mp hname
    rw [(env.iterated headers).mem_iff, hlookup] at hmem
    contradiction

/-- **Every answer can be read**, whatever the interleaving and the bytes received: what
is handed to `async_write` is a response with distinct headers, and says what the handler
of its URI has returned to its request, with all default headers, if these fit into
lines. -/
theorem answers_readable (henv : HandlerSurroundings) {ι : Type} [DecidableEq ι]
    {routing : RouterState} {address : Nat} {s : ServerRun ι}
    (h : Reachable (ReactorState.SomeStep (serverProtocol env) (Async.handler env))
      (serverStart ι routing address) s)
    (hreplies : HandlersReply henv env.stalePort s.asked)
    (hdefault : ∀ name value, routing.router.headers.lookup name = some value →
      IsHeader (name, value))
    {session : Nat} {text : Bytes} (ho : s.objects (.session session) = some (.writing text)) :
    ∃ read, readResponse text = some read ∧
      AnswerSays env routing.router s.asked session read := by
  have herror : readResponse (handleError env.unrouted) = some _ := readResponse_plain env 500 _
  cases (sessions_answer h session).2 text ho with
  | unread _ => exact ⟨_, herror, .error⟩
  | @refused data hread hvalid =>
    rw [handleSuccess_of_invalid hvalid]
    exact ⟨_, readResponse_plain env 400 _, .refused hread hvalid⟩
  | @routed data result hread hvalid hhandled =>
    obtain ⟨rh, hselect, hresult⟩ := hhandled
    cases result with
    | error e =>
      refine ⟨_, ?_, .error⟩
      rw [handleSuccess_of_throw hvalid]
      exact herror
    | ok resp =>
      obtain ⟨output, hmem, rfl⟩ := hresult
      have hclean : output.Clean := by
        rcases hreplies rh _ output hmem with ⟨handlerClass, config, -, hreturns⟩ | ⟨-, hclean⟩
        · exact hreturns.clean (oneLine_uri hvalid)
        · exact hclean
      have hheaders : ∀ header ∈ env.order routing.router.headers, IsHeader header :=
        fun header hheader => hdefault _ _ (((env.iterated _).mem_iff _ _).mp hheader)
      obtain ⟨hcode, hbody⟩ := output.setHeaders_eq (env.order routing.router.headers)
      refine ⟨_, ?_, .response hread hvalid hselect hmem (env.iterated _).nodup
        (mem_order_setHeaders output)⟩
      rw [handleSuccess_of_holder hvalid]
      refine (readResponse_generateResponse (hclean.setHeaders hheaders) (env.iterated _)).trans ?_
      rw [hcode, hbody]

/-- The answer is the echo of a request. -/
def isEcho : (Σ q : ServerQuestion, q.Reply) → Bool
  | ⟨.handle .echo req, reply⟩ =>
    match (reply : HandlerOutcome) with
    | .returned output => output.statusCode = 200 ∧ output.responseBody = cString req.rawRequest "" ∧
        output.responseHeaders.entries = [⟨lit "Content-Type", lit "text/plain"⟩]
    | .thrown _ | .ended => true
  | ⟨.handle _ _, _⟩ => false
  | _ => true

/-- The text is that echo. -/
theorem answers_readable_echo : ∃ s,
    Reachable (ReactorState.SomeStep (serverProtocol storedSurroundings)
      (Async.handler storedSurroundings)) (serverStart Bool echoRouting 1) s ∧
    ∃ read, readResponse echoedText = some read ∧
      AnswerSays storedSurroundings echoRouting.router s.asked 1 read := by
  obtain ⟨s, hs, hwrites, hecho⟩ := exists_of_echoRun
    (P := fun s => (s.objects (.session 1)).any (·.writes echoedText) = true ∧
      s.asked.all isEcho = true) echoedMoves (by decide +kernel)
  obtain ⟨p, hp, hwrites⟩ := (Option.any_eq_true _ _).mp hwrites
  obtain rfl := ServerPhase.writes_iff.mp hwrites
  refine ⟨s, hs, answers_readable ⟨"", FileSystem.single "a" "b" (by decide), ""⟩ hs ?_ ?_ hp⟩
  · intro rh req output hmem
    have hall := List.all_eq_true.mp hecho _ hmem
    cases rh with
    | echo =>
      obtain ⟨hcode, hbody, hentries⟩ := of_decide_eq_true hall
      obtain ⟨code, headers, body⟩ := output
      obtain rfl : headers = AList.insert (lit "Content-Type") (lit "text/plain") ∅ :=
        AList.ext hentries
      dsimp only at hcode hbody
      subst hcode hbody
      exact .inl ⟨.echo, none, rfl, .echo⟩
    | staticFile | status | proxy | meme | health | default => contradiction
  · intro name value hlookup
    contradiction

end GittyUp
