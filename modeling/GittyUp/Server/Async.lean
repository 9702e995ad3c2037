import GittyUp.Http.Session
import GittyUp.Http.Wire
import GittyUp.Lib.Reactor
import GittyUp.Router.Safety
import GittyUp.Router.Status

/-!
# Callbacks of the server (`server.cc`, `session.cc`, `server_main.cc`)

The server accepts a connection, reads from it once, writes an answer and closes
it, each in a callback that starts the next asynchronous operation. The threads
of `server::run` take the callbacks as the operations complete, in any order.
Here every callback is a program for such a runtime. The calls of the
asynchronous operations, of the socket and of the members of a session are
accesses of the session; `new` and `delete` are the creation and the destruction
of it; what the router does under a lock is one atomic step. The bytes that are
written lie in an argument of `session::write`, which is gone when that returns.

The handlers may return or throw anything, or end the process, every operation may
fail, and a signal may come at any time.
-/

namespace GittyUp

open Lib

/-! ## Objects and operations -/

/-- The acceptor of the server, the sessions at their addresses, and the arguments
of `session::write`. -/
inductive ServerObject where
  | acceptor
  | session (address : Nat)
  | data (address : Nat)
  deriving DecidableEq, Repr

/-- What the callbacks do with an object, apart from creating and deleting it;
`copy` gives the argument of `session::write` its bytes. -/
inductive ServerAccess where
  | asyncAccept
  | socket
  | remoteEndpoint
  | asyncReadSome
  | data (data : Bytes)
  | holder (resp : Response)
  | copy (text : Bytes)
  | asyncWrite (text : Bytes)
  | shutdown
  | close

/-- An asynchronous operation, with the session that its callback is bound to;
`async_write` is also given the place of the bytes, and `main` waits for a signal. -/
inductive ServerOperation where
  | signal
  | accept (newSession : Nat)
  | read (session : Nat)
  | write (session : Nat) (text : Bytes) (data : Nat)
  deriving DecidableEq

/-- What becomes of the call of a handler: it returns or throws, or it ends the
process, by a call of `exit` or where we let undefined behaviour do so. -/
inductive HandlerOutcome where
  | returned (output : Response)
  | thrown (e : StdException)
  | ended

/-- What the environment decides: whether a signal is delivered, whether an operation
or a call of the socket fails, what is read, and what becomes of the call of a
handler. -/
inductive ServerQuestion where
  | signal
  | accept (newSession : Nat)
  | read (session : Nat)
  | write (session : Nat)
  | shutdown (session : Nat)
  | close (session : Nat)
  | handle (rh : RouteHandler) (req : Request)

/-- The bytes that a read transfers, as many as the buffer takes, or its failure. -/
abbrev ReadResult := Option { data : Bytes // data.length ≤ maxLength }

/-- Success or failure; the result of a read; what the handler does. -/
def ServerQuestion.Reply : ServerQuestion → Type
  | .signal | .accept _ | .write _ | .shutdown _ | .close _ => Bool
  | .read _ => ReadResult
  | .handle _ _ => HandlerOutcome

/-- What the threads share: the router with the recorder, and `isRunning`. -/
structure ServerShared where
  routing : RouterState
  isRunning : Bool

/-- `server_status_recorder::request_recorder`. -/
def ServerShared.requestRecorder (st : ServerShared) (url : Bytes) (responseCode : Nat) :
    ServerShared :=
  { st with routing :=
    { st.routing with recorder := st.routing.recorder.requestRecorder url responseCode } }

/-- The rest of a callback of the server. -/
abbrev ServerCallback :=
  Callback ServerObject ServerAccess ServerOperation ServerShared ServerQuestion.Reply

/-- `Surroundings` without the router, and the value of a port that the proxy's
constructor leaves as it is. -/
structure ServerSurroundings where
  order : UnorderedMap Bytes Bytes → List (Bytes × Bytes)
  iterated : ∀ m : UnorderedMap Bytes Bytes, m.IteratedAs (order m)
  stale : Bytes
  beyond : Bytes
  stalePort : Int

/-- The surroundings of a session for which `route_request` gives the result. -/
def ServerSurroundings.session (env : ServerSurroundings)
    (result : Except StdException Response) : Surroundings :=
  ⟨fun _ => result, env.order, env.stale, env.beyond⟩

/-- The surroundings of a session whose request is never routed. -/
def ServerSurroundings.unrouted (env : ServerSurroundings) : Surroundings :=
  env.session (.error .invalidArgument)

namespace Async

/-! ## The server -/

/-- `signal_handler`. -/
def signalHandler : ServerCallback :=
  .ask .signal fun (delivered : Bool) => if delivered then .terminate else .done

/-- `server::start_accept`; the argument says whether `router_` is set. -/
def startAccept (hasRouter : Bool) : ServerCallback :=
  if hasRouter then
    .create .session fun newSession =>
      .access (.session newSession) .socket <|
      .access .acceptor .asyncAccept <|
      .post (.accept newSession) <|
      .atomic (fun st => { st with isRunning := true }) fun _ => .done
  else .atomic (fun st => { st with isRunning := false }) fun _ => .done

/-- `session::read`, before the code `k`. -/
def read (session : Nat) (k : ServerCallback) : ServerCallback :=
  .access (.session session) .asyncReadSome <| .post (.read session) k

/-- `session::start`. That `remote_endpoint` may throw makes no difference. -/
def start (session : Nat) (k : ServerCallback) : ServerCallback :=
  .access (.session session) .remoteEndpoint <| read session k

/-- `server::handle_accept`. -/
def handleAccept (newSession : Nat) : ServerCallback :=
  .ask (.accept newSession) fun (accepted : Bool) =>
    if accepted then start newSession (startAccept true)
    else .destroy (.session newSession) (startAccept true)

/-! ## The session -/

section Session

variable (env : ServerSurroundings)

/-- `session::write`, whose argument `data` is destroyed at the end. -/
def write (session : Nat) (text : Bytes) : ServerCallback :=
  .create .data fun data =>
    .access (.data data) (.copy text) <|
    .access (.session session) (.asyncWrite text) <|
    .post (.write session text data) <|
    .destroy (.data data) .done

/-- `session::close`. An exception of the socket leaves the callback, and with it
the thread, which ends the process. -/
def close (session : Nat) : ServerCallback :=
  .access (.session session) .shutdown <| .ask (.shutdown session) fun (shut : Bool) =>
    if shut then
      .access (.session session) .close <| .ask (.close session) fun (closed : Bool) =>
        if closed then .destroy (.session session) .done else .terminate
    else .terminate

/-- `session::handle_error`. -/
def handleError (session : Nat) : ServerCallback :=
  write session (GittyUp.handleError env.unrouted)

/-- The log line of `router::route_request`, which looks the handler's name up
once more. -/
def logHandler (uri : Bytes) (k : ServerCallback) : ServerCallback :=
  .atomic id fun st =>
    let route := longestPrefixMatch (env.order st.routing.router.routeMap) uri
    .atomic id fun st =>
      match getRouteHandler st.routing.router route with
      | none => .terminate
      | some _ => k

/-- `router::route_request`, which hands on the response or the exception. Where
the source reads past the tokens of a statement or follows a null pointer we let
the process end. -/
def routeRequest (req : Request) (k : Except StdException Response → ServerCallback) :
    ServerCallback :=
  .atomic id fun st =>
    let route := longestPrefixMatch (env.order st.routing.router.routeMap) req.uri
    .atomic id fun st =>
      match getRouteHandler st.routing.router route with
      | none => .terminate
      | some handler =>
        .atomic id fun st =>
          match getHandlerConfig st.routing.router (handlerClass handler).2 with
          | none => .terminate
          | some config =>
            match createHandler env.stalePort st.routing.router.serverRoot
              (handlerClass handler).1 config with
            | none => .terminate
            | some rh =>
              .ask (.handle rh req) fun (outcome : HandlerOutcome) =>
                match outcome with
                | .ended => .terminate
                | .thrown e => k (.error e)
                | .returned output =>
                  .atomic (·.requestRecorder req.uri output.statusCode) fun _ =>
                  logHandler env req.uri <|
                  .atomic id fun st =>
                    k (.ok (output.setHeaders (env.order st.routing.router.headers)))

/-- `session::handle_valid_request` in the `try` block of `handle_success`. -/
def handleValidRequest (session : Nat) (req : Request) : ServerCallback :=
  routeRequest env req fun result =>
    match result with
    | .ok holder =>
      .access (.session session) (.holder holder) <| write session (responseText env.unrouted holder)
    | .error _ => handleError env session

/-- `session::handle_invalid_request`. -/
def handleInvalidRequest (session : Nat) (req : Request) : ServerCallback :=
  write session (GittyUp.handleInvalidRequest env.unrouted req)

/-- `session::handle_success`, where the buffer holds `data`. -/
def handleSuccess (session : Nat) (data : Bytes) : ServerCallback :=
  .access (.session session) (.data data) <|
    if (Request.mk' env.stale data).valid then
      handleValidRequest env session (Request.mk' env.stale data)
    else handleInvalidRequest env session (Request.mk' env.stale data)

/-- `session::handle_read`. -/
def handleRead (session : Nat) : ServerCallback :=
  .ask (.read session) fun (result : ReadResult) =>
    match result with
    | some data => handleSuccess env session data.1
    | none => handleError env session

/-- `session::handle_write`. -/
def handleWrite (session : Nat) : ServerCallback :=
  .ask (.write session) fun (written : Bool) =>
    if written then close session else .destroy (.session session) .done

/-- The callback of an operation. -/
def handler : ServerOperation → ServerCallback
  | .signal => signalHandler
  | .accept newSession => handleAccept newSession
  | .read session => handleRead env session
  | .write session _ _ => handleWrite session

end Session

end Async

/-! ## The life of a session -/

/-- What an object is at: the acceptor is always the same, and so are the bytes to
be written once they are `copied`; a session goes through the other phases in
turn. -/
inductive ServerPhase where
  | acceptor
  | copied (text : Bytes)
  | opened
  | connecting
  | reading
  | received (data : Bytes)
  | holding (data : Bytes) (resp : Response)
  | writing (text : Bytes)
  | shut
  | closed

/-- The life of a session: it is given to one `async_accept`, reads once, writes
once, and is closed. What it writes is the error text when the read has failed,
and else the answer of `handle_success` to the bytes read: to the response that
it holds, or with no response, as it is for a request that is refused or whose
handler throws. -/
def ServerPhase.advance (env : ServerSurroundings) : ServerPhase → ServerAccess → Option ServerPhase
  | .acceptor, .asyncAccept => some .acceptor
  | .opened, .copy text => some (.copied text)
  | .opened, .socket => some .connecting
  | .connecting, .remoteEndpoint => some .connecting
  | .connecting, .asyncReadSome => some .reading
  | .reading, .data data => some (.received data)
  | .reading, .asyncWrite text =>
    if text = handleError env.unrouted then some (.writing text) else none
  | .received data, .holder resp =>
    if (Request.mk' env.stale data).valid then some (.holding data resp) else none
  | .received data, .asyncWrite text =>
    if text = handleSuccess env.unrouted data then some (.writing text) else none
  | .holding data resp, .asyncWrite text =>
    if text = handleSuccess (env.session (.ok resp)) data then some (.writing text) else none
  | .writing _, .shutdown => some .shut
  | .shut, .close => some .closed
  | _, _ => none

/-- A session may be deleted when no connection has come, when its answer could
not be written, and when it is closed. -/
def ServerPhase.ends : ServerPhase → Bool
  | .copied _ | .connecting | .writing _ | .closed => true
  | _ => false

/-- The objects that an operation is given. Nothing keeps the bytes that are to be
written for it. -/
def ServerOperation.needs : ServerOperation → ServerObject → Option ServerPhase
  | .signal => fun _ => none
  | .accept newSession =>
    Function.update (only (.session newSession) .connecting) .acceptor (some .acceptor)
  | .read session => only (.session session) .reading
  | .write session text _ => only (.session session) (.writing text)

/-- The operation is an `async_accept`. -/
def ServerOperation.isAccept : ServerOperation → Bool
  | .accept _ => true
  | _ => false

/-- The session that the operation's callback is bound to. -/
def ServerOperation.session : ServerOperation → Option Nat
  | .signal => none
  | .accept newSession => some newSession
  | .read session => some session
  | .write session _ _ => some session

theorem ServerOperation.needs_acceptor (op : ServerOperation) :
    (op.needs .acceptor).isSome = op.isAccept := by
  cases op <;> simp [needs, isAccept, only]

theorem isSome_only_session (session session' : Nat) (p : ServerPhase) :
    (only (ServerObject.session session) p (.session session')).isSome =
      decide (some session = some session') := by
  by_cases h : session = session'
  · subst h
    simp
  · rw [only_of_ne (by simpa using Ne.symm h), decide_eq_false (by simpa using h)]
    rfl

theorem ServerOperation.needs_session (op : ServerOperation) (session : Nat) :
    (op.needs (.session session)).isSome = decide (op.session = some session) := by
  cases op with
  | signal => rfl
  | accept newSession =>
    rw [needs, Function.update_of_ne (by simp)]
    exact isSome_only_session newSession session .connecting
  | read session' => exact isSome_only_session session' session .reading
  | write session' text _ => exact isSome_only_session session' session (.writing text)

theorem ServerOperation.needs_data (op : ServerOperation) (data : Nat) :
    op.needs (.data data) = none := by
  cases op <;> simp [needs, only]

/-- What the callbacks may do to the acceptor and to the sessions. -/
def serverProtocol (env : ServerSurroundings) :
    Protocol ServerObject ServerPhase ServerAccess ServerOperation :=
  ⟨.opened, ServerPhase.advance env, ServerPhase.ends, ServerOperation.needs⟩

/-! ## What an answer is made of -/

/-- What the environment was asked, with its answers. -/
abbrev ServerTold := List (Σ q : ServerQuestion, q.Reply)

/-- The question is what the read of the session brings. -/
def ServerQuestion.isRead (session : Nat) : ServerQuestion → Bool
  | .read session' => session' = session
  | _ => false

/-- The last read of the session at this address has had the result. (The address may
have been that of other sessions before.) -/
def LastRead (told : ServerTold) (session : Nat) (result : ReadResult) : Prop :=
  (told.filter fun a => a.1.isRead session).getLast? = some ⟨.read session, result⟩

/-- It has brought `data`. -/
def HasRead (told : ServerTold) (session : Nat) (data : Bytes) : Prop :=
  ∃ bytes : { data : Bytes // data.length ≤ maxLength },
    LastRead told session (some bytes) ∧ bytes.1 = data

/-- What `route_request` makes of the request: the handler that its URI selects was
called with it, and has returned the response, which then got the default headers,
or has thrown the exception. -/
def Handled (env : ServerSurroundings) (router : Router) (told : ServerTold) (req : Request)
    (result : Except StdException Response) : Prop :=
  ∃ rh, selectRouteHandler env.stalePort router (env.order router.routeMap) req.uri = some rh ∧
    match result with
    | .ok resp => ∃ output, ⟨.handle rh req, HandlerOutcome.returned output⟩ ∈ told ∧
        resp = output.setHeaders (env.order router.headers)
    | .error e => ⟨.handle rh req, HandlerOutcome.thrown e⟩ ∈ told

/-- What the callbacks are held to: the router stays as it is, a session is read from
by its owner, the buffer holds what was read, `holder_` is set to what the handler has
returned for that, and without a response only an error is written. -/
def serverDiscipline (env : ServerSurroundings) (router : Router) :
    Discipline ServerObject ServerPhase ServerAccess ServerShared ServerQuestion.Reply where
  sound st := st.routing.router = router
  about
    | .read session => some (.session session, .reading)
    | _ => none
  duly
    | told, .session session, .reading, .data data => HasRead told session data
    | told, .session session, .reading, .asyncWrite _ => LastRead told session none
    | told, .session _, .received data, .holder resp =>
      Handled env router told (Request.mk' env.stale data) (.ok resp)
    | told, .session _, .received data, .asyncWrite _ =>
      (Request.mk' env.stale data).valid = true →
        ∃ e, Handled env router told (Request.mk' env.stale data) (.error e)
    | _, _, _, _ => True

/-- The server with its sessions. -/
abbrev ServerRun (ι : Type) := ReactorState ι ServerObject ServerPhase ServerAccess ServerOperation
  ServerShared ServerQuestion.Reply

/-- The server when `main` has called `async_wait` and `start_accept`, and
`server::run` starts the threads. -/
def serverStart (ι : Type) (routing : RouterState) (address : Nat) : ServerRun ι where
  running := fun _ => .done
  pending := [.signal, .accept address]
  objects := (ServerOperation.accept address).needs
  shared := ⟨routing, true⟩
  asked := []
  up := true

end GittyUp
