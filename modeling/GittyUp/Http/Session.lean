import GittyUp.Http.Response
import GittyUp.Http.Syntax
import GittyUp.Lib.Transition

/-!
# Sessions (`session.cc`)

A session reads once from its socket, into a buffer of 1024 bytes, answers what
it got, and closes. `answersWhole_iff`: it answers the whole request only if the
transport delivers that request in one chunk which fits the buffer.
-/

namespace GittyUp

open Lib

/-- What the session's code depends on besides the bytes it reads: the router
with its handlers, the iteration order of a header map, and two places where
the source reads memory it does not own. -/
structure Surroundings where
  /-- `router::route_request`. -/
  routeRequest : Request → Except StdException Response
  /-- The order in which a header map is iterated. -/
  order : UnorderedMap Bytes Bytes → List (Bytes × Bytes)
  /-- What `parse_query_string` reads after it has freed the query. -/
  stale : Bytes
  /-- The memory behind the array `raw_request_`. -/
  beyond : Bytes

/-! ## The handlers of a read -/

/-- `std::string(char*)` on an array: the bytes up to the first NUL, which may
lie in the memory behind the array. -/
def cString (array beyond : Bytes) : Bytes := cStr (array ++ beyond)

/-- The response of `session::handle_invalid_request`. -/
def invalidRequestResponse (beyond : Bytes) (req : Request) : Response :=
  (Response.mk' 400 (cString req.rawRequest beyond)).setHeader "Content-Type" "text/plain"

section Handlers

variable (env : Surroundings)

/-- The text that is written for a response. -/
def responseText (r : Response) : Bytes := r.generateResponse (env.order r.responseHeaders)

/-- `session::handle_error`: the text it writes. -/
def handleError : Bytes :=
  responseText env <| (Response.mk' 500
    "Oops! Looks like something went wrong on our side. Please try again later.").setHeader
      "Content-Type" "text/plain"

/-- `session::handle_valid_request`: the text it writes. -/
def handleValidRequest (req : Request) : Except StdException Bytes := do
  let holder ← env.routeRequest req
  return responseText env holder

/-- `session::handle_invalid_request`: the text it writes. -/
def handleInvalidRequest (req : Request) : Bytes :=
  responseText env (invalidRequestResponse env.beyond req)

/-- `session::handle_success` on the bytes transferred: the text it writes. -/
def handleSuccess (data : Bytes) : Bytes :=
  let req := Request.mk' env.stale data
  if req.valid then
    match handleValidRequest env req with
    | .ok text => text
    | .error _ => handleError env
  else handleInvalidRequest env req

end Handlers

/-! ## A session and its transport -/

/-- `session::max_length`. -/
def maxLength : Nat := 1024

/-- `async_read_some` into `data_`: the bytes transferred and the chunks left.
A chunk that does not fit the buffer is cut. -/
def readSome : List Bytes → Option (Bytes × List Bytes)
  | [] => none
  | chunk :: chunks =>
    if chunk.length ≤ maxLength then some (chunk, chunks)
    else some (chunk.take maxLength, chunk.drop maxLength :: chunks)

/-- The asynchronous operation that a session waits for. -/
inductive SessionPhase where
  | reading
  | writing
  | closed
  deriving DecidableEq, Repr

/-- A text written to the client, with the bytes it answers. -/
structure Answer where
  basis : Bytes
  text : Bytes

/-- A session, and the chunks that the transport has yet to deliver. -/
structure SessionState where
  phase : SessionPhase
  answers : List Answer
  chunks : List Bytes

/-- One callback: `handle_read` after a successful read, and `handle_write`. -/
inductive SessionStep (env : Surroundings) : SessionState → SessionState → Prop
  | read {st : SessionState} {data : Bytes} {chunks : List Bytes} : st.phase = .reading →
      readSome st.chunks = some (data, chunks) →
      SessionStep env st ⟨.writing, st.answers ++ [⟨data, handleSuccess env data⟩], chunks⟩
  | written {st : SessionState} : st.phase = .writing →
      SessionStep env st { st with phase := .closed }

/-- A way to deliver a request: non-empty chunks that make it up. -/
structure Delivery (req : Bytes) where
  chunks : List Bytes
  nonempty : ∀ chunk ∈ chunks, chunk ≠ []
  whole : chunks.flatten = req

/-- The session as `start` leaves it. -/
def Delivery.start {req : Bytes} (d : Delivery req) : SessionState := ⟨.reading, [], d.chunks⟩

/-- The session does answer, and never on the basis of anything but the whole
request. -/
structure AnswersWhole (env : Surroundings) {req : Bytes} (d : Delivery req) : Prop where
  only : ∀ st, Reachable (SessionStep env) d.start st →
    ∀ answer ∈ st.answers, answer = ⟨req, handleSuccess env req⟩
  some : ∃ st, Reachable (SessionStep env) d.start st ∧ st.answers ≠ []

/-! ## Which deliveries are answered whole -/

/-- The first read decides the first answer. -/
theorem Delivery.first_answer (env : Surroundings) {req : Bytes} (d : Delivery req)
    {data : Bytes} {chunks : List Bytes} (h : readSome d.chunks = Option.some (data, chunks)) :
    Reachable (SessionStep env) d.start ⟨.writing, [⟨data, handleSuccess env data⟩], chunks⟩ :=
  Reachable.refl.tail (@SessionStep.read env d.start data chunks rfl h)

/-- A session whose transport delivers nothing never leaves its first state. -/
theorem Delivery.start_of_nil {env : Surroundings} {req : Bytes} {d : Delivery req}
    (hnil : d.chunks = []) {st : SessionState} (h : Reachable (SessionStep env) d.start st) :
    st = d.start := by
  refine h.invariant (P := fun st => st = d.start) rfl ?_
  rintro _ _ rfl hstep
  cases hstep with
  | read _ hread =>
    rw [Delivery.start, hnil] at hread
    contradiction
  | written hphase => contradiction

/-- One step keeps the only answer the one to the whole request. -/
theorem SessionStep.answer_whole {env : Surroundings} {req : Bytes} (hlen : req.length ≤ maxLength)
    {st st' : SessionState} (hstep : SessionStep env st st')
    (h : (st.phase = .reading ∧ st.answers = [] ∧ st.chunks = [req]) ∨
      (st.phase ≠ .reading ∧ st.answers = [⟨req, handleSuccess env req⟩])) :
    st'.phase ≠ .reading ∧ st'.answers = [⟨req, handleSuccess env req⟩] := by
  cases hstep with
  | read hphase hread =>
    obtain ⟨-, hans, hchunks⟩ := h.resolve_right fun h => h.1 hphase
    rw [hchunks, readSome, if_pos hlen] at hread
    obtain ⟨rfl, rfl⟩ := Prod.mk.inj (Option.some.inj hread)
    exact ⟨by simp, by rw [hans]; rfl⟩
  | written hphase =>
    obtain ⟨-, hans⟩ := h.resolve_left fun h => by simp [hphase] at h
    exact ⟨by simp, hans⟩

/-- **A session answers the whole request exactly when the transport delivers it
in one chunk of at most 1024 bytes.** -/
theorem answersWhole_iff (env : Surroundings) {req : Bytes} (d : Delivery req) :
    AnswersWhole env d ↔ d.chunks = [req] ∧ req.length ≤ maxLength := by
  constructor
  · intro h
    have first : ∀ {data chunks}, readSome d.chunks = Option.some (data, chunks) → data = req :=
      fun hread => congrArg Answer.basis
        (h.only _ (d.first_answer env hread) _ (List.mem_singleton_self _))
    cases hchunks : d.chunks with
    | nil =>
      obtain ⟨st, hst, hne⟩ := h.some
      rw [Delivery.start_of_nil hchunks hst] at hne
      exact absurd rfl hne
    | cons chunk chunks =>
      have hwhole := d.whole
      rw [hchunks, List.flatten_cons] at hwhole
      -- the first read returns the first chunk, or as much of it as fits
      by_cases hlen : chunk.length ≤ maxLength
      · obtain rfl := first (by rw [hchunks, readSome, if_pos hlen])
        have hrest : chunks = [] := by
          cases chunks with
          | nil => rfl
          | cons c cs =>
            have hc := d.nonempty c (by simp [hchunks])
            simp [hc] at hwhole
        exact ⟨by rw [hrest], hlen⟩
      · have hcut := first (by rw [hchunks, readSome, if_neg hlen])
        have := congrArg List.length (hcut.trans hwhole.symm)
        rw [List.length_take, List.length_append] at this
        omega
  · rintro ⟨hchunks, hlen⟩
    have hread : readSome d.chunks = Option.some (req, []) := by
      rw [hchunks, readSome, if_pos hlen]
    refine ⟨fun st hst => ?_, _, d.first_answer env hread, by simp⟩
    have hinv := hst.invariant
      (P := fun st => (st.phase = .reading ∧ st.answers = [] ∧ st.chunks = [req]) ∨
        (st.phase ≠ .reading ∧ st.answers = [⟨req, handleSuccess env req⟩]))
      (.inl ⟨rfl, rfl, hchunks⟩) fun _ _ h hstep => .inr (hstep.answer_whole hlen h)
    rcases hinv with ⟨-, hans, -⟩ | ⟨-, hans⟩
    · simp [hans]
    · simp [hans]

/-! ## A request that arrives in two chunks -/

/-- A request whose body is announced by `Content-Length`. -/
def FramedRequest (s : Bytes) : Prop :=
  ∃ (method target : Bytes) (headers : List (Bytes × Bytes)) (body : Bytes),
    RequestLine s method target (headers.flatMap headerLine ++ [cr, lf] ++ body) ∧
      ((' ' : Byte) ∉ target) ∧ (∀ h ∈ headers, IsHeader h) ∧
      ((lit "Content-Length", decimal body.length) ∈ headers)

/-- A POST whose body comes in a chunk of its own is answered without it. -/
theorem post_not_answersWhole :
    FramedRequest "POST /meme HTTP/1.1\r\nContent-Length: 5\r\n\r\nhello" ∧
      ¬ AnswersWhole ⟨fun _ => .ok (Response.mk' 200 "ok"), fun _ => [], [], []⟩
        (⟨["POST /meme HTTP/1.1\r\nContent-Length: 5\r\n\r\n", "hello"], by decide, by decide⟩ :
          Delivery "POST /meme HTTP/1.1\r\nContent-Length: 5\r\n\r\nhello") := by
  constructor
  · exact ⟨"POST", "/meme", [("Content-Length", "5")], "hello",
      RequestLine.of_eq (by decide), by decide, by decide, by decide⟩
  · intro h
    have hread := h.only _ (Delivery.first_answer _ _ rfl) _ (List.mem_singleton_self _)
    exact absurd (congrArg Answer.basis hread) (by decide)

end GittyUp
