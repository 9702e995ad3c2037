import GittyUp.Meme.Interleaving

/-!
# What PUT and DELETE report

An accepted PUT or DELETE is one statement, and its response is decided by that
statement's result code alone, never by the rows that it changed: the response is
the truth only where the statement completes exactly if a row has the id
(`tellsTruth_iff`). On a connection that can be used a statement completes
whether or not there is one.
-/

namespace GittyUp

open Lib

/-- A PUT with an accepted body or a DELETE, of an accepted id. -/
def IsWrite (req : Request) : Prop :=
  (req.method = "PUT" ∧ (acceptedTexts req.requestBody).isSome ∨ req.method = "DELETE") ∧
    checkId (checkUri req.uri) = true

instance : DecidablePred IsWrite := fun _ => inferInstanceAs (Decidable (_ ∧ _))

/-- The response after the one statement of a write. -/
def writeReply (req : Request) (done : Bool) : Response :=
  if req.method = "PUT" then updateReply (checkUri req.uri) done
  else deleteReply (checkUri req.uri) done

theorem writeReply_statusCode (req : Request) (done : Bool) :
    (writeReply req done).statusCode = if done then 200 else 500 := by
  unfold writeReply updateReply deleteReply
  cases done <;> split_ifs <;> rfl

/-- The one statement of a write. -/
def writeStatement (req : Request) : MemeStatement :=
  if req.method = "PUT" then
    .replace (checkUri req.uri) ((acceptedTexts req.requestBody).getD ⟨[], [], []⟩)
  else .remove (checkUri req.uri)

/-- **A write is one statement**, which changes no record but those with the id. -/
theorem IsWrite.program {req : Request} (h : IsWrite req) (uuid : Bytes) :
    handleRequest uuid req = .call (writeStatement req).statement
        (fun reply => .ret (writeReply req reply.done)) ∧
      ∀ records, (∀ r ∈ records, r.id ≠ checkUri req.uri) →
        (writeStatement req).apply records = records := by
  obtain ⟨hmethod, hid⟩ := h
  have hcStr := cStr_of_nulFree (nulFree_of_checkId hid)
  rcases hmethod with ⟨hput, hbody⟩ | hdelete
  · obtain ⟨texts, htexts⟩ := Option.isSome_iff_exists.mp hbody
    have hcommand : command uuid req = .replace (checkUri req.uri) texts := by
      unfold command
      rw [if_neg (by rw [hput]; decide), if_pos hput, hid, htexts]
    have hst : writeStatement req = .replace (checkUri req.uri) texts := by
      rw [writeStatement, if_pos hput, htexts, Option.getD_some]
    rw [hst]
    refine ⟨?_, fun records hrecords => ?_⟩
    · rcases handleRequest_command uuid req with hprogram | ⟨hother, -⟩
      · rw [hcommand] at hprogram
        refine (Option.some.inj hprogram).symm.trans ?_
        simp only [writeReply, if_pos hput]
      · rw [hcommand] at hother
        contradiction
    · refine (Multiset.map_congr rfl fun r hr => ?_).trans (Multiset.map_id records)
      exact if_neg (by rw [hcStr]; exact hrecords r hr)
  · have hcommand : command uuid req = .remove (checkUri req.uri) := by
      unfold command
      rw [if_neg (by rw [hdelete]; decide), if_neg (by rw [hdelete]; decide), if_pos hdelete,
        if_pos hid]
    have hnot : req.method ≠ lit "PUT" := by
      rw [hdelete]
      decide
    have hst : writeStatement req = .remove (checkUri req.uri) := if_neg hnot
    rw [hst]
    refine ⟨?_, fun records hrecords => ?_⟩
    · rcases handleRequest_command uuid req with hprogram | ⟨hother, -⟩
      · rw [hcommand] at hprogram
        refine (Option.some.inj hprogram).symm.trans ?_
        simp only [writeReply, if_neg hnot]
      · rw [hcommand] at hother
        contradiction
    · exact Multiset.filter_eq_self.mpr fun r hr => by rw [hcStr]; exact hrecords r hr

section Reports

variable {Db : Type}

/-- The table holds a row with the id. -/
def HasId (L : Sqlite Db) (db : Db) (id : Bytes) : Prop :=
  ∃ row ∈ L.rows db, memeSchema.cell row "id" = some id

/-- The write is answered 200 if and only if the table held a row with its id, and
if not, with no success and with the table left as it was. -/
def TellsTruth (L : Sqlite Db) (db : Db) (uuid : Bytes) (req : Request) : Prop :=
  ∃ response, ((handleRequest uuid req).run L.exec db).1 = .ok response ∧
    (response.statusCode = 200 ↔ HasId L db (checkUri req.uri)) ∧
    (¬ HasId L db (checkUri req.uri) →
      ¬ (200 ≤ response.statusCode ∧ response.statusCode < 300) ∧
        L.rows ((handleRequest uuid req).run L.exec db).2 = L.rows db)

variable {L : Sqlite Db}

theorem hasId_iff {db : Db} {records : Multiset MemeRecord} (h : Holds L db records) (id : Bytes) :
    HasId L db id ↔ ∃ r ∈ records, r.id = id := by
  unfold HasId
  rw [h]
  constructor
  · rintro ⟨row, hrow, hid⟩
    obtain ⟨r, hr, rfl⟩ := Multiset.mem_map.mp hrow
    exact ⟨r, hr, Option.some.inj ((cell_id r).symm.trans hid)⟩
  · rintro ⟨r, hr, rfl⟩
    exact ⟨r.row, Multiset.mem_map_of_mem _ hr, cell_id r⟩

/-- Whatever the requests have executed, the table holds records. -/
theorem holds_of_reachable {ι : Type} [DecidableEq ι] (hstd : L.Standard memeSchema) {db : Db}
    (hempty : L.rows db = 0) {arrivals : ι → Arrival}
    {s : Pool Abort SqlStatement SqlReply Response Db ι}
    (h : Reachable (Pool.Step L.exec) (serving db arrivals) s) :
    ∃ records, Holds L s.shared records := by
  refine Pool.invariant h
    (P := fun i q => ∃ st, q = st.statement ∧ (arrivals i).command.MayIssue st)
    (I := fun db _ => ∃ records, Holds L db records)
    (fun i => issues_handle (arrivals i)) ⟨0, hempty⟩ ?_
  rintro db trace i _ ⟨st, rfl, -⟩ ⟨records, hholds⟩
  obtain ⟨hcompleted, hfailed⟩ := exec_statement hstd hholds st
  cases hdone : (L.exec db st.statement).1.done with
  | true => exact ⟨_, (hcompleted hdone).2.2⟩
  | false => exact ⟨records, hfailed hdone⟩

/-- SQLite completes the statement of the write. -/
def WriteCompletes (L : Sqlite Db) (db : Db) (req : Request) : Prop :=
  (L.exec db (writeStatement req).statement).1.done = true

/-- A write is answered by whether its statement completes, and leaves a table
without its id as it was. -/
theorem run_write (hstd : L.Standard memeSchema) {db : Db} {records : Multiset MemeRecord}
    (hholds : Holds L db records) {req : Request} (hreq : IsWrite req) (uuid : Bytes) :
    (∃ response, ((handleRequest uuid req).run L.exec db).1 = .ok response ∧
        response.statusCode = if (L.exec db (writeStatement req).statement).1.done then 200
          else 500) ∧
      ((∀ r ∈ records, r.id ≠ checkUri req.uri) →
        L.rows ((handleRequest uuid req).run L.exec db).2 = L.rows db) := by
  obtain ⟨hprogram, hkeeps⟩ := hreq.program uuid
  obtain ⟨hcompleted, hfailed⟩ := exec_statement hstd hholds (writeStatement req)
  rw [hprogram, Prog.run]
  refine ⟨⟨_, rfl, writeReply_statusCode _ _⟩, fun hrecords => ?_⟩
  cases hdone : (L.exec db (writeStatement req).statement).1.done with
  | true =>
    have hafter := (hcompleted hdone).2.2
    rw [hkeeps records hrecords] at hafter
    exact hafter.trans hholds.symm
  | false => exact (hfailed hdone).trans hholds.symm

/-- **PUT and DELETE report the truth exactly when their statement completes if
and only if the table holds a row with the id**, in every state that any
interleaving of requests reaches. When it holds none the table is at least left as
it was. -/
theorem tellsTruth_iff {ι : Type} [DecidableEq ι] (hstd : L.Standard memeSchema) {db : Db}
    (hempty : L.rows db = 0) {arrivals : ι → Arrival}
    {s : Pool Abort SqlStatement SqlReply Response Db ι}
    (h : Reachable (Pool.Step L.exec) (serving db arrivals) s) {req : Request}
    (hreq : IsWrite req) (uuid : Bytes) :
    (TellsTruth L s.shared uuid req ↔
        (HasId L s.shared (checkUri req.uri) ↔ WriteCompletes L s.shared req)) ∧
      (¬ HasId L s.shared (checkUri req.uri) →
        L.rows ((handleRequest uuid req).run L.exec s.shared).2 = L.rows s.shared) := by
  obtain ⟨records, hholds⟩ := holds_of_reachable hstd hempty h
  obtain ⟨⟨response, hanswer, hstatus⟩, hkeeps⟩ := run_write hstd hholds hreq uuid
  have hunchanged (hno : ¬ HasId L s.shared (checkUri req.uri)) :=
    hkeeps fun r hr hid => hno ((hasId_iff hholds _).mpr ⟨r, hr, hid⟩)
  have hsuccess : response.statusCode = 200 ↔ WriteCompletes L s.shared req := by
    rw [hstatus, WriteCompletes]
    split_ifs with hdone <;> simp [hdone]
  refine ⟨⟨?_, fun hid => ?_⟩, hunchanged⟩
  · rintro ⟨response', hanswer', htruth, -⟩
    obtain rfl := Except.ok.inj (hanswer.symm.trans hanswer')
    exact htruth.symm.trans hsuccess
  · refine ⟨response, hanswer, hsuccess.trans hid.symm, fun hno => ⟨?_, hunchanged hno⟩⟩
    -- without success the status code is 500
    have hfailed : ¬ (L.exec s.shared (writeStatement req).statement).1.done = true :=
      fun hdone => hno (hid.mpr hdone)
    rw [hstatus, if_neg hfailed]
    decide

end Reports

/-- A DELETE of a meme that was posted before. -/
theorem tellsTruth_posted :
    let arrivals : Fin 1 → Arrival := fun _ => ⟨"00000000-0000-4000-8000-000000000001",
      ⟨"", "POST", "/memes/", ∅, "memeSelect=a.jpg&topCaption=b&bottomCaption=c", ∅, true⟩⟩
    let req : Request := ⟨"", "DELETE", "/memes/00000000-0000-4000-8000-000000000001", ∅, "", ∅,
      true⟩
    ∃ s, (serving [] arrivals).play (reference memeSchema).exec [0] = some s ∧
      (TellsTruth (reference memeSchema) s.shared "" req ↔
        (HasId (reference memeSchema) s.shared (checkUri req.uri) ↔
          WriteCompletes (reference memeSchema) s.shared req)) := by
  intro arrivals req
  obtain ⟨s, hs⟩ : ∃ s, (serving [] arrivals).play (reference memeSchema).exec [0] = some s :=
    ⟨_, rfl⟩
  have hreq : IsWrite req := by decide +kernel
  exact ⟨s, hs, (tellsTruth_iff (reference_standard memeSchema) rfl (Pool.reachable_of_play hs)
    hreq "").1⟩

/-- A DELETE on the empty table is answered 200. -/
theorem not_tellsTruth_empty :
    let req : Request := ⟨"", "DELETE", "/memes/00000000-0000-4000-8000-000000000001", ∅, "", ∅,
      true⟩
    IsWrite req ∧ ¬ TellsTruth (reference memeSchema) [] "" req := by
  intro req
  have hreq : IsWrite req := by decide +kernel
  refine ⟨hreq, ?_⟩
  rintro ⟨response, hresponse, htruth, -⟩
  have hempty : Holds (reference memeSchema) [] 0 := rfl
  obtain ⟨⟨response', hanswer, hstatus⟩, -⟩ :=
    run_write (reference_standard memeSchema) hempty hreq ""
  obtain rfl := Except.ok.inj (hanswer.symm.trans hresponse)
  rw [exec_done (reference_reliable memeSchema) hempty (writeStatement req) trivial] at hstatus
  obtain ⟨row, hrow, -⟩ := htruth.mp hstatus
  exact absurd hrow (Multiset.notMem_zero row)

end GittyUp
