import GittyUp.Lib.Numeral
import GittyUp.Lib.Prog
import GittyUp.Router.Router

/-!
# The status page (`server_status_recorder.cc`, `status_handler.cc`)

All threads of the server append to one recorder, and the status handler reads
it in three calls, each of them atomic under the recorder's mutex.
`consistent_iff`: the page is a consistent snapshot exactly when no request is
recorded between the first call and the second.
-/

namespace GittyUp

open Lib

/-! ## The recorder -/

/-- `server_status_recorder::request_recorder`. -/
def StatusRecorder.requestRecorder (r : StatusRecorder) (url : Bytes) (responseCode : Nat) :
    StatusRecorder :=
  { r with urlResponseList := r.urlResponseList ++ [(url, responseCode)] }

/-- The methods of `server_status_recorder`. -/
inductive RecorderCall where
  | requestRecorder (url : Bytes) (responseCode : Nat)
  | prefixRecorder (pair : Bytes × Bytes)
  | getUrlResponseList
  | getUrlResponseListSize
  | getPrefixHandlerList
  deriving DecidableEq, Repr

/-- One call. It replies with the recorder, of which the caller gets the part it
asked for. -/
def execRecorder (r : StatusRecorder) : RecorderCall → StatusRecorder × StatusRecorder
  | .requestRecorder url responseCode =>
    (r.requestRecorder url responseCode, r.requestRecorder url responseCode)
  | .prefixRecorder pair => (r.prefixRecorder pair, r.prefixRecorder pair)
  | .getUrlResponseList => (r, r)
  | .getUrlResponseListSize => (r, r)
  | .getPrefixHandlerList => (r, r)

/-- The call records a request. -/
def RecorderCall.RecordsRequest : RecorderCall → Prop
  | .requestRecorder _ _ => True
  | _ => False

/-! ## The handler -/

/-- A table of the status page: rows, or the row that says there are none. -/
inductive StatusTable (α : Type) where
  | placeholder
  | rows (l : List α)
  deriving DecidableEq, Repr

/-- The rows of a table. -/
def StatusTable.entries {α : Type} : StatusTable α → List α
  | .placeholder => []
  | .rows l => l

/-- What the status page shows. -/
structure StatusPage where
  numRequest : Int
  requests : StatusTable (Bytes × Nat)
  prefixes : StatusTable (Bytes × Bytes)
  deriving DecidableEq, Repr

/-- `status_handler::handle_request` with the values it has read. -/
def statusPage (numRequest : Int) (urlResponseList : List (Bytes × Nat))
    (prefixHandlerList : List (Bytes × Bytes)) : StatusPage where
  numRequest := numRequest
  requests := if numRequest = 0 then .placeholder else .rows urlResponseList
  prefixes := if prefixHandlerList = [] then .placeholder else .rows prefixHandlerList

/-- The text of the page, as it is streamed into `body`. -/
def StatusPage.text (page : StatusPage) : Bytes :=
  lit "<!DOCTYPE html><html><head></head><body><h1>Server Status</h1><p>Number of request: " ++
    decimal page.numRequest.toNat ++ lit "</p>" ++ lit "<table>" ++
    lit "<tr><th>URL</th><th>Response Code</th></tr>" ++
    (match page.requests with
      | .placeholder => lit "</tr><td colspan='2'>No Request</td><tr>"
      | .rows l => l.flatMap fun request => lit "<tr><td>" ++ request.1 ++ lit "</td>" ++
          lit "<td>" ++ decimal request.2 ++ lit "</td></tr>") ++
    lit "</table>" ++ lit "<p>URL Prefix and Handler Matching</p>" ++ lit "<table>" ++
    lit "<tr><th>Prefix</th><th>Handler</th></tr>" ++
    (match page.prefixes with
      | .placeholder => lit "</tr><td colspan= '2'>Empty</td><tr>"
      | .rows l => l.flatMap fun pre => lit "<tr><td>" ++ pre.1 ++ lit "</td>" ++
          lit "<td>" ++ pre.2 ++ lit "</td></tr>") ++
    lit "</table></body></html>"

/-- `exit(1)`. -/
inductive StatusExit where
  | exit
  deriving DecidableEq, Repr

/-- Code that calls the recorder. -/
abbrev RecorderProg (α : Type) := Prog StatusExit RecorderCall StatusRecorder α

/-- The end of `handle_request`, with the two lists read. A thread that produces
no page returns `none`. -/
def readPrefixes (numRequest : Int) (urlResponseList : List (Bytes × Nat)) :
    RecorderProg (Option StatusPage) :=
  .call .getPrefixHandlerList fun r =>
    .ret (some (statusPage numRequest urlResponseList r.prefixHandlerList))

/-- `handle_request` after the size has been read. -/
def readRequests (numRequest : Int) : RecorderProg (Option StatusPage) :=
  if numRequest < 0 then .abort .exit
  else .call .getUrlResponseList fun r => readPrefixes numRequest r.urlResponseList

/-- The page that `status_handler::handle_request` produces. -/
def readStatus : RecorderProg (Option StatusPage) :=
  .call .getUrlResponseListSize fun r => readRequests (intOfSize r.urlResponseList.length)

/-! ## Snapshots -/

/-- The page agrees with itself and with the list that it was made from. -/
structure StatusPage.Consistent (page : StatusPage) (list : List (Bytes × Nat)) : Prop where
  count : page.numRequest = page.requests.entries.length
  placeholder : page.requests = .placeholder ↔ page.numRequest = 0 ∧ list = []

/-- A page is consistent when the size that was read is the length of the list
that was read. -/
theorem statusPage_consistent_iff {m : Nat} {list : List (Bytes × Nat)}
    (hpos : 0 ≤ intOfSize m) (hle : m ≤ list.length) (prefixes : List (Bytes × Bytes)) :
    (statusPage (intOfSize m) list prefixes).Consistent list ↔ list.length = m ∧ m < 2 ^ 31 := by
  have hint := intOfSize_eq_iff m
  have hbound : intOfSize m < 2 ^ 31 := by
    unfold intOfSize
    omega
  generalize intOfSize m = n at hpos hint hbound
  by_cases hzero : n = 0
  · subst hzero
    have htable : (statusPage 0 list prefixes).requests = .placeholder := rfl
    constructor
    · intro h
      have hnil := (h.placeholder.mp htable).2
      rw [hnil, List.length_nil] at hle ⊢
      omega
    · rintro ⟨hlen, hlt⟩
      have hnil : list = [] := List.length_eq_zero_iff.mp (by omega)
      exact ⟨rfl, fun _ => ⟨rfl, hnil⟩, fun _ => htable⟩
  · have htable : (statusPage n list prefixes).requests = .rows list := if_neg hzero
    have hcount : (statusPage n list prefixes).numRequest =
        (statusPage n list prefixes).requests.entries.length ↔ n = list.length := by
      rw [htable]
      rfl
    constructor
    · intro h
      have := hcount.mp h.count
      omega
    · rintro ⟨hlen, hlt⟩
      refine ⟨hcount.mpr (by omega), fun h => ?_, fun h => absurd h.1 hzero⟩
      rw [htable] at h
      contradiction

/-! ## Interleavings -/

section Interleaving

variable {ι : Type}

/-- The requests recorded in a trace. -/
def recordedRequests (trace : List (Event ι RecorderCall StatusRecorder)) : List (Bytes × Nat) :=
  trace.flatMap fun e =>
    match e.query with
    | .requestRecorder url responseCode => [(url, responseCode)]
    | _ => []

theorem recordedRequests_eq_nil_iff (trace : List (Event ι RecorderCall StatusRecorder)) :
    recordedRequests trace = [] ↔ ∀ e ∈ trace, ¬ e.query.RecordsRequest := by
  rw [recordedRequests, List.flatMap_eq_nil_iff]
  refine forall₂_congr fun e _ => ?_
  cases e.query <;> simp [RecorderCall.RecordsRequest]

theorem recordedRequests_append (trace trace' : List (Event ι RecorderCall StatusRecorder)) :
    recordedRequests (trace ++ trace') = recordedRequests trace ++ recordedRequests trace' :=
  List.flatMap_append

/-- One call appends what it records. -/
theorem execRecorder_urlResponseList (r : StatusRecorder) (i : ι) (q : RecorderCall)
    (reply : StatusRecorder) :
    (execRecorder r q).2.urlResponseList =
      r.urlResponseList ++ recordedRequests [⟨i, q, reply⟩] := by
  cases q <;> simp [execRecorder, recordedRequests, StatusRecorder.requestRecorder,
    StatusRecorder.prefixRecorder]

/-- How far the thread `i` has come with `readStatus`, with what it has read. -/
inductive StatusPhase (i : ι) (initial : List (Bytes × Nat)) :
    List (Event ι RecorderCall StatusRecorder) → RecorderProg (Option StatusPage) → Prop
  | start {trace} : StatusPhase i initial trace readStatus
  | sized {before mid r} : r.urlResponseList = initial ++ recordedRequests before →
      StatusPhase i initial (before ++ ⟨i, .getUrlResponseListSize, r⟩ :: mid)
        (readRequests (intOfSize r.urlResponseList.length))
  | listed {before mid after r r'} : 0 ≤ intOfSize r.urlResponseList.length →
      r'.urlResponseList = r.urlResponseList ++ recordedRequests mid →
      StatusPhase i initial
        (before ++ ⟨i, .getUrlResponseListSize, r⟩ :: mid ++ ⟨i, .getUrlResponseList, r'⟩ :: after)
        (readPrefixes (intOfSize r.urlResponseList.length) r'.urlResponseList)
  | done {before mid after r r'} {prefixes : List (Bytes × Bytes)} :
      0 ≤ intOfSize r.urlResponseList.length →
      r'.urlResponseList = r.urlResponseList ++ recordedRequests mid →
      StatusPhase i initial
        (before ++ ⟨i, .getUrlResponseListSize, r⟩ :: mid ++ ⟨i, .getUrlResponseList, r'⟩ :: after)
        (.ret (some (statusPage (intOfSize r.urlResponseList.length) r'.urlResponseList prefixes)))

theorem StatusPhase.append {i : ι} {initial : List (Bytes × Nat)}
    {trace : List (Event ι RecorderCall StatusRecorder)} {p : RecorderProg (Option StatusPage)}
    (h : StatusPhase i initial trace p) (e : Event ι RecorderCall StatusRecorder) :
    StatusPhase i initial (trace ++ [e]) p := by
  cases h with
  | start => exact .start
  | sized hr =>
    rw [List.append_assoc]
    exact .sized hr
  | listed hpos hr =>
    rw [List.append_assoc]
    exact .listed hpos hr
  | done hpos hr =>
    rw [List.append_assoc]
    exact .done hpos hr

/-- The handler goes on after the size unless the size is negative. -/
theorem readRequests_eq_call {n : Int} {q : RecorderCall}
    {k : StatusRecorder → RecorderProg (Option StatusPage)}
    (h : Prog.call q k = readRequests n) :
    0 ≤ n ∧ q = .getUrlResponseList ∧ k = fun r => readPrefixes n r.urlResponseList := by
  unfold readRequests at h
  split_ifs at h with hneg
  obtain ⟨rfl, rfl⟩ := Prog.call.inj h
  exact ⟨Int.not_lt.mp hneg, rfl, rfl⟩

theorem readRequests_ne_ret (n : Int) (page : Option StatusPage) :
    Prog.ret page ≠ readRequests n := by
  unfold readRequests
  split_ifs
  · exact fun h => nomatch h
  · exact fun h => nomatch h

/-- One call of the thread moves it to its next phase. -/
theorem StatusPhase.step {i : ι} {initial : List (Bytes × Nat)}
    {trace : List (Event ι RecorderCall StatusRecorder)} {recorder : StatusRecorder}
    {q : RecorderCall} {k : StatusRecorder → RecorderProg (Option StatusPage)}
    (hrecorder : recorder.urlResponseList = initial ++ recordedRequests trace)
    (h : StatusPhase i initial trace (.call q k)) :
    StatusPhase i initial (trace ++ [⟨i, q, (execRecorder recorder q).1⟩])
      (k (execRecorder recorder q).1) := by
  generalize hp : Prog.call q k = p at h
  cases h with
  | start =>
    obtain ⟨rfl, rfl⟩ := Prog.call.inj hp
    exact .sized hrecorder
  | @sized before mid r hr =>
    obtain ⟨hpos, rfl, rfl⟩ := readRequests_eq_call hp
    refine .listed hpos ?_
    show recorder.urlResponseList = _
    rw [hrecorder, hr]
    simp [recordedRequests]
  | @listed before mid after r r' hpos hr =>
    obtain ⟨rfl, rfl⟩ := Prog.call.inj hp
    rw [List.append_assoc]
    exact .done hpos hr
  | done => exact nomatch hp

variable [DecidableEq ι]

/-- In every reachable state the recorder holds what was recorded, and the
thread that produces the page is in one of its phases. -/
theorem statusPhase_of_reachable {i : ι} {recorder : StatusRecorder}
    {threads : ι → RecorderProg (Option StatusPage)} (hi : threads i = readStatus)
    {s : Pool StatusExit RecorderCall StatusRecorder (Option StatusPage) StatusRecorder ι}
    (h : Reachable (Pool.Step execRecorder) (Pool.start recorder threads) s) :
    s.shared.urlResponseList = recorder.urlResponseList ++ recordedRequests s.trace ∧
      StatusPhase i recorder.urlResponseList s.trace (s.threads i) := by
  refine h.invariant (P := fun s =>
    s.shared.urlResponseList = recorder.urlResponseList ++ recordedRequests s.trace ∧
      StatusPhase i recorder.urlResponseList s.trace (s.threads i)) ⟨?_, ?_⟩ ?_
  · exact (List.append_nil _).symm
  · show StatusPhase i recorder.urlResponseList [] (threads i)
    rw [hi]
    exact .start
  · rintro s s' ⟨hshared, hphase⟩ hstep
    cases hstep with
    | @call j q k hj =>
      constructor
      · show (execRecorder s.shared q).2.urlResponseList = _ ++ recordedRequests (s.trace ++ [_])
        rw [execRecorder_urlResponseList s.shared j q (execRecorder s.shared q).1, hshared,
          recordedRequests_append, List.append_assoc]
      · show StatusPhase i recorder.urlResponseList (s.trace ++ [_])
          (Function.update s.threads j (k (execRecorder s.shared q).1) i)
        by_cases hij : i = j
        · subst hij
          rw [Function.update_self]
          rw [hj] at hphase
          exact hphase.step hshared
        · rw [Function.update_of_ne hij]
          exact hphase.append _

/-- **The status page is a consistent snapshot exactly when no request is
recorded between the reading of the size and the reading of the list**, and the
size was an `int`. The other threads may do anything with the recorder. -/
theorem consistent_iff {i : ι} {recorder : StatusRecorder}
    {threads : ι → RecorderProg (Option StatusPage)} (hi : threads i = readStatus)
    {s : Pool StatusExit RecorderCall StatusRecorder (Option StatusPage) StatusRecorder ι}
    (h : Reachable (Pool.Step execRecorder) (Pool.start recorder threads) s)
    {page : StatusPage} (hpage : s.threads i = .ret (some page)) :
    ∃ before mid after size list,
      s.trace = before ++ ⟨i, .getUrlResponseListSize, size⟩ :: mid ++
        ⟨i, .getUrlResponseList, list⟩ :: after ∧
      (page.Consistent list.urlResponseList ↔
        (∀ e ∈ mid, ¬ e.query.RecordsRequest) ∧ size.urlResponseList.length < 2 ^ 31) := by
  obtain ⟨-, hphase⟩ := statusPhase_of_reachable hi h
  rw [hpage] at hphase
  generalize hp : Prog.ret (some page) = p at hphase
  generalize htrace : s.trace = trace at hphase
  cases hphase with
  | start => exact absurd hp (by simp [readStatus])
  | sized => exact absurd hp (readRequests_ne_ret _ _)
  | listed => exact absurd hp (by simp [readPrefixes])
  | @done before mid after size list prefixes hpos hlist =>
    obtain rfl := Option.some.inj (Prog.ret.inj hp)
    refine ⟨before, mid, after, size, list, rfl, ?_⟩
    have hlen : list.urlResponseList.length =
        size.urlResponseList.length + (recordedRequests mid).length := by
      rw [hlist, List.length_append]
    rw [statusPage_consistent_iff hpos (by omega), ← recordedRequests_eq_nil_iff,
      ← List.length_eq_zero_iff]
    omega

end Interleaving

/-- A thread that makes one call. -/
def recordOnce (q : RecorderCall) : RecorderProg (Option StatusPage) := .call q fun _ => .ret none

/-- Two threads: one produces the page, the other makes one call. -/
def statusThreads (q : RecorderCall) : Bool → RecorderProg (Option StatusPage)
  | true => readStatus
  | false => recordOnce q

/-- The two threads, with a recorder that has one request. -/
def statusPool (q : RecorderCall) :
    Pool StatusExit RecorderCall StatusRecorder (Option StatusPage) StatusRecorder Bool :=
  Pool.start ⟨[("/x", 200)], []⟩ (statusThreads q)

/-- The page that a thread has produced. -/
def producedPage : RecorderProg (Option StatusPage) → Option StatusPage
  | .ret page => page
  | _ => none

theorem producedPage_eq_some {p : RecorderProg (Option StatusPage)} {page : StatusPage}
    (h : producedPage p = some page) : p = .ret (some page) := by
  cases p with
  | ret page' => exact congrArg Prog.ret h
  | abort e => exact nomatch h
  | call q k => exact nomatch h

/-- A prefix that is recorded between the two calls does no harm. -/
theorem consistent_prefix :
    ∃ s page list,
      Reachable (Pool.Step execRecorder) (statusPool (.prefixRecorder ("/a", "echo"))) s ∧
      s.threads true = .ret (some page) ∧ page.Consistent list := by
  have hplay : ((statusPool (.prefixRecorder ("/a", "echo"))).play execRecorder
      [true, false, true, true]).any fun s =>
        producedPage (s.threads true) = some (statusPage 1 [("/x", 200)] [(lit "/a", lit "echo")]) ∧
        ∀ e ∈ s.trace, (recordedRequests [e] = [] ∧ e.reply.urlResponseList.length = 1) := by
    decide +kernel
  obtain ⟨s, hrun, hend⟩ := (Option.any_eq_true _ _).mp hplay
  obtain ⟨hpage, htrace⟩ := of_decide_eq_true hend
  have hreach := Pool.reachable_of_play hrun
  have hthread : statusThreads (.prefixRecorder ("/a", "echo")) true = readStatus := rfl
  obtain ⟨before, mid, after, size, list, heq, hiff⟩ :=
    consistent_iff hthread hreach (producedPage_eq_some hpage)
  rw [heq] at htrace
  refine ⟨s, _, _, hreach, producedPage_eq_some hpage, hiff.mpr ⟨fun e he => ?_, ?_⟩⟩
  · exact (recordedRequests_eq_nil_iff [e]).mp (htrace e (by simp [he])).1 e List.mem_cons_self
  · rw [(htrace ⟨true, .getUrlResponseListSize, size⟩ (by simp)).2]
    decide

/-- A request that is recorded between the two calls: the page says that there
was one, over two rows. -/
theorem consistent_race :
    ∃ s, Reachable (Pool.Step execRecorder) (statusPool (.requestRecorder "/a" 404)) s ∧
      s.threads true = .ret (some (statusPage 1 [("/x", 200), ("/a", 404)] [])) ∧
      ∀ list, ¬ (statusPage 1 [("/x", 200), ("/a", 404)] []).Consistent list := by
  have hplay : ((statusPool (.requestRecorder "/a" 404)).play execRecorder
      [true, false, true, true]).any fun s =>
        producedPage (s.threads true) = some (statusPage 1 [("/x", 200), ("/a", 404)] []) := by
    decide +kernel
  obtain ⟨s, hrun, hend⟩ := (Option.any_eq_true _ _).mp hplay
  refine ⟨s, Pool.reachable_of_play hrun, producedPage_eq_some (of_decide_eq_true hend), ?_⟩
  intro list h
  have hcount : (1 : Int) = 2 := h.count
  omega

end GittyUp
