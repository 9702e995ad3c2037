import GittyUp.Meme.Command

/-!
# The meme store, one request after another

Starting from an empty table, the table always holds exactly the memes of the
abstract map, and every response is the one that the map gives:
`meme_store_refines`.
-/

namespace GittyUp

open Lib

/-! ## The table of a map -/

/-- The record that holds a meme. -/
def Meme.record (meme : Meme) (id : Bytes) : MemeRecord := ⟨id, meme.texts, decimal meme.views⟩

/-- The records are those of the map, one for each id that is present. -/
structure Stores (records : Multiset MemeRecord) (m : MemeMap) : Prop where
  nodup : (records.map MemeRecord.id).Nodup
  mem : ∀ r, r ∈ records ↔ ∃ meme, m r.id = some meme ∧ r = meme.record r.id

namespace Stores

variable {records : Multiset MemeRecord} {m : MemeMap}

theorem empty : Stores 0 fun _ => none := ⟨by simp, by simp⟩

/-- A record with a fresh id is a new meme. -/
theorem insert (h : Stores records m) {id : Bytes} (hid : m id = none) (meme : Meme) :
    Stores (meme.record id ::ₘ records) (Function.update m id (some meme)) := by
  have hfresh : ∀ r ∈ records, r.id ≠ id := by
    intro r hr hrid
    obtain ⟨_, hsome, -⟩ := (h.mem r).mp hr
    rw [hrid, hid] at hsome
    contradiction
  constructor
  · rw [Multiset.map_cons, Multiset.nodup_cons]
    refine ⟨fun hmem => ?_, h.nodup⟩
    obtain ⟨r, hr, hrid⟩ := Multiset.mem_map.mp hmem
    exact hfresh r hr hrid
  · intro r
    rw [Multiset.mem_cons]
    by_cases hr : r.id = id
    · rw [hr, Function.update_self]
      constructor
      · rintro (heq | hmem)
        · exact ⟨meme, rfl, heq⟩
        · exact (hfresh r hmem hr).elim
      · rintro ⟨_, hsome, heq⟩
        obtain rfl := Option.some.inj hsome
        exact .inl heq
    · rw [Function.update_of_ne hr, h.mem]
      constructor
      · rintro (rfl | hmem)
        · exact (hr rfl).elim
        · exact hmem
      · exact .inr

/-- Changing the records with an id changes the meme of that id, if present. -/
theorem update (h : Stores records m) {id : Bytes} {f : MemeRecord → MemeRecord}
    {g : Meme → Meme} (hf : ∀ meme, m id = some meme → f (meme.record id) = (g meme).record id) :
    Stores (records.map fun r => if r.id = id then f r else r)
      (Function.update m id ((m id).map g)) := by
  have hthis : ∀ r ∈ records, r.id = id → ∃ meme, m id = some meme ∧ r = meme.record id ∧
      f r = (g meme).record id := by
    intro r hr hrid
    obtain ⟨meme, hsome, heq⟩ := (h.mem r).mp hr
    rw [hrid] at hsome heq
    exact ⟨meme, hsome, heq, heq ▸ hf meme hsome⟩
  have hids : (records.map fun r => if r.id = id then f r else r).map MemeRecord.id =
      records.map MemeRecord.id := by
    rw [Multiset.map_map]
    refine Multiset.map_congr rfl fun r hr => ?_
    rw [Function.comp_apply]
    split_ifs with hrid
    · obtain ⟨meme, -, -, hfr⟩ := hthis r hr hrid
      rw [hfr, hrid]
      rfl
    · rfl
  refine ⟨hids ▸ h.nodup, fun r => ?_⟩
  rw [Multiset.mem_map]
  constructor
  · rintro ⟨r₀, hr₀, rfl⟩
    split_ifs with hrid
    · obtain ⟨meme, hsome, -, hfr⟩ := hthis r₀ hr₀ hrid
      rw [hfr]
      show ∃ meme', Function.update m id ((m id).map g) id = some meme' ∧ _
      rw [Function.update_self, hsome]
      exact ⟨g meme, rfl, rfl⟩
    · rw [Function.update_of_ne hrid]
      exact (h.mem r₀).mp hr₀
  · rintro ⟨meme', hsome, heq⟩
    by_cases hrid : r.id = id
    · rw [hrid] at hsome heq
      rw [Function.update_self, Option.map_eq_some_iff] at hsome
      obtain ⟨meme, hmeme, rfl⟩ := hsome
      refine ⟨meme.record id, (h.mem _).mpr ⟨meme, hmeme, rfl⟩, ?_⟩
      rw [if_pos (show (meme.record id).id = id from rfl), hf meme hmeme, heq]
    · rw [Function.update_of_ne hrid] at hsome
      exact ⟨r, (h.mem r).mpr ⟨meme', hsome, heq⟩, if_neg hrid⟩

/-- Dropping the records with an id removes the meme of that id. -/
theorem remove (h : Stores records m) (id : Bytes) :
    Stores (records.filter fun r => r.id ≠ id) (Function.update m id none) := by
  constructor
  · exact Multiset.nodup_of_le (Multiset.map_le_map (Multiset.filter_le _ _)) h.nodup
  · intro r
    rw [Multiset.mem_filter, h.mem]
    by_cases hr : r.id = id
    · simp [hr]
    · simp [hr]

/-- The records with an id. -/
theorem filter_id (h : Stores records m) (id : Bytes) :
    (records.filter fun r => r.id = id) = ((m id).elim 0 fun meme => {meme.record id}) := by
  have hcard : (records.filter fun r => r.id = id).Nodup :=
    (Multiset.Nodup.of_map _ h.nodup).filter _
  cases hid : m id with
  | none =>
    refine Multiset.filter_eq_nil.mpr fun r hr hrid => ?_
    obtain ⟨_, hsome, -⟩ := (h.mem r).mp hr
    rw [hrid, hid] at hsome
    contradiction
  | some meme =>
    refine (Multiset.Nodup.ext hcard (Multiset.nodup_singleton _)).mpr fun r => ?_
    rw [Multiset.mem_filter, h.mem, Multiset.mem_singleton]
    constructor
    · rintro ⟨⟨meme', hsome, heq⟩, hrid⟩
      rw [hrid, hid] at hsome
      obtain rfl := Option.some.inj hsome
      rw [heq, hrid]
    · rintro rfl
      exact ⟨⟨meme, hid, rfl⟩, rfl⟩

end Stores

/-! ## One request -/

/-- What the handler relies on: every meme has proper texts, an id that is a C
string, and a number of views within bounds. -/
def MemeMap.Sane (m : MemeMap) (bound : Nat) : Prop :=
  ∀ id meme, m id = some meme → NulFree id ∧ meme.texts.Proper ∧ meme.views ≤ bound

/-- What the handler has checked, or drawn, when it comes to a command. -/
def MemeCommand.Ready (m : MemeMap) : MemeCommand → Prop
  | .add id texts => NulFree id ∧ texts.Proper ∧ m id = none
  | .replace id texts => NulFree id ∧ texts.Proper
  | .remove id => NulFree id
  | .view id => NulFree id
  | .other => True

theorem MemeMap.Sane.apply {m : MemeMap} {bound : Nat} (h : m.Sane bound) {c : MemeCommand}
    (hc : c.Ready m) : (m.apply c).Sane (bound + 1) := by
  intro id meme hsome
  have keep : m id = some meme → NulFree id ∧ meme.texts.Proper ∧ meme.views ≤ bound + 1 :=
    fun h' => ⟨(h id meme h').1, (h id meme h').2.1, Nat.le_succ_of_le (h id meme h').2.2⟩
  cases c with
  | add id' texts =>
    by_cases hid : id = id'
    · rw [hid, MemeMap.apply, Function.update_self] at hsome
      obtain rfl := Option.some.inj hsome
      exact ⟨hid ▸ hc.1, hc.2.1, Nat.zero_le _⟩
    · exact keep ((Function.update_of_ne hid _ _).symm.trans hsome)
  | replace id' texts =>
    by_cases hid : id = id'
    · rw [hid, MemeMap.apply, Function.update_self, Option.map_eq_some_iff] at hsome
      obtain ⟨old, hold, rfl⟩ := hsome
      exact ⟨hid ▸ hc.1, hc.2, Nat.le_succ_of_le (h _ old hold).2.2⟩
    · exact keep ((Function.update_of_ne hid _ _).symm.trans hsome)
  | remove id' =>
    by_cases hid : id = id'
    · rw [hid, MemeMap.apply, Function.update_self] at hsome
      contradiction
    · exact keep ((Function.update_of_ne hid _ _).symm.trans hsome)
  | view id' =>
    by_cases hid : id = id'
    · rw [hid, MemeMap.apply, Function.update_self, Option.map_eq_some_iff] at hsome
      obtain ⟨old, hold, rfl⟩ := hsome
      obtain ⟨-, htexts, hviews⟩ := h _ old hold
      exact ⟨hid ▸ hc, htexts, Nat.succ_le_succ hviews⟩
    · exact keep ((Function.update_of_ne hid _ _).symm.trans hsome)
  | other => exact keep hsome

/-- `std::to_string` of a non-negative `int`. -/
theorem intText_ofNat {n : Nat} (h : n < 2 ^ 31) : intText (n : Int) = decimal n := by
  have hbmod : (n : Int).bmod (2 ^ 32) = n := by
    rw [Int.bmod_def]
    omega
  unfold intText
  simp only [hbmod]
  rw [if_neg (by omega), Int.natAbs_natCast]

theorem nulFree_decimal (n : Nat) : NulFree (decimal n) := by
  intro h
  exact absurd ((decimal_spec n).2.1 0 h) (by decide)

/-- Reading the row of a meme as C strings affects at most its texts. -/
theorem row_map_cStr {id : Bytes} (hid : NulFree id) (meme : Meme) :
    (meme.record id).row.map cStr = (Meme.record ⟨meme.texts.cStr, meme.views⟩ id).row := by
  simp only [Meme.record, MemeRecord.row, MemeTexts.cStr, List.map_cons, List.map_nil,
    cStr_of_nulFree hid, cStr_of_nulFree (nulFree_decimal _)]

/-- What a GET does once it has the row of a meme. -/
theorem countView_record {meme : Meme} (h : meme.views + 1 < 2 ^ 31) (id : Bytes) :
    countView [(meme.record id).row] =
      .call (MemeStatement.setViews id (decimal (meme.views + 1))).statement fun _ =>
        .ret (memeResponse meme.texts) := by
  have hviews : stoi (meme.record id).views = .ok (meme.views : Int) := stoi_decimal (by omega)
  rw [countView_row hviews, ← Int.natCast_succ, intText_ofNat h]
  rfl

section Run

variable {Db : Type} {L : Sqlite Db} (hstd : L.Standard memeSchema)
  (hrel : L.Reliable memeSchema)

include hstd hrel

/-- A statement with an enabled effect has it. -/
theorem exec_holds {db : Db} {records : Multiset MemeRecord} (h : Holds L db records)
    (s : MemeStatement) (hs : s.Enabled records) :
    (L.exec db s.statement).1.done = true ∧ s.Returns records (L.exec db s.statement).1.rows ∧
      Holds L (L.exec db s.statement).2 (s.apply records) := by
  have hdone := exec_done hrel h s hs
  exact ⟨hdone, ((exec_statement hstd h s).1 hdone).2⟩

/-- A GET of one meme. -/
theorem run_view {db : Db} {records : Multiset MemeRecord} {m : MemeMap} {bound : Nat}
    (h : Holds L db records) (hm : Stores records m) (hsane : m.Sane bound)
    (hbound : bound + 1 < 2 ^ 31) {id : Bytes} (hid : NulFree id) :
    some ((viewProgram id).run L.exec db).1 = (m.answer (.view id)).map Except.ok ∧
      ∃ records', Holds L ((viewProgram id).run L.exec db).2 records' ∧
        Stores records' (m.apply (.view id)) := by
  obtain ⟨-, hreturns, hholds⟩ := exec_holds hstd hrel h (.byId id) trivial
  simp only [MemeStatement.Returns, cStr_of_nulFree hid, hm.filter_id] at hreturns
  rw [viewProgram, Prog.run]
  cases hmeme : m id with
  | none =>
    rw [hmeme, Option.elim_none, Multiset.map_zero, Multiset.coe_eq_zero] at hreturns
    rw [hreturns]
    refine ⟨by simp [MemeMap.answer, hmeme, countView, Prog.run], records, hholds, ?_⟩
    rw [MemeMap.apply, hmeme, Option.map_none, ← hmeme, Function.update_eq_self]
    exact hm
  | some meme =>
    obtain ⟨-, htexts, hviews⟩ := hsane id meme hmeme
    rw [hmeme, Option.elim_some, Multiset.map_singleton, Multiset.coe_eq_singleton] at hreturns
    rw [hreturns, List.map_singleton, row_map_cStr hid, htexts.cStr_eq,
      countView_record (by dsimp only; omega)]
    obtain ⟨-, -, hset⟩ := exec_holds hstd hrel hholds
      (.setViews id (decimal (meme.views + 1))) trivial
    refine ⟨?_, _, hset, ?_⟩
    · simp [MemeMap.answer, hmeme, Prog.run, memeResponse_proper htexts]
    · simp only [MemeStatement.apply, cStr_of_nulFree hid, cStr_of_nulFree (nulFree_decimal _)]
      refine hm.update fun old hold => ?_
      obtain rfl := Option.some.inj (hmeme.symm.trans hold)
      rfl

/-- **A command is answered as the map says, and changes the table as it changes
the map.** -/
theorem run_program {db : Db} {records : Multiset MemeRecord} {m : MemeMap} {bound : Nat}
    (h : Holds L db records) (hm : Stores records m) (hsane : m.Sane bound)
    (hbound : bound + 1 < 2 ^ 31) {c : MemeCommand} (hc : c.Ready m) {p : MemeProg Response}
    (hp : c.program = some p) :
    some (p.run L.exec db).1 = (m.answer c).map Except.ok ∧
      ∃ records', Holds L (p.run L.exec db).2 records' ∧ Stores records' (m.apply c) := by
  cases c with
  | add id texts =>
    obtain rfl := Option.some.inj hp
    obtain ⟨hid, htexts, hfresh⟩ := hc
    have henabled : (MemeStatement.insert id texts).Enabled records := by
      intro r hr hrid
      obtain ⟨_, hsome, -⟩ := (hm.mem r).mp hr
      rw [hrid, cStr_of_nulFree hid, hfresh] at hsome
      contradiction
    obtain ⟨hdone, -, hholds⟩ := exec_holds hstd hrel h _ henabled
    refine ⟨?_, _, hholds, ?_⟩
    · simp [Prog.run, MemeMap.answer, createReply, hdone]
    · simp only [MemeStatement.apply, cStr_of_nulFree hid, htexts.cStr_eq]
      exact hm.insert hfresh ⟨texts, 0⟩
  | replace id texts =>
    obtain rfl := Option.some.inj hp
    obtain ⟨hid, htexts⟩ := hc
    obtain ⟨hdone, -, hholds⟩ := exec_holds hstd hrel h (.replace id texts) trivial
    refine ⟨?_, _, hholds, ?_⟩
    · simp [Prog.run, MemeMap.answer, updateReply, hdone]
    · simp only [MemeStatement.apply, cStr_of_nulFree hid, htexts.cStr_eq]
      exact hm.update fun meme _ => rfl
  | remove id =>
    obtain rfl := Option.some.inj hp
    obtain ⟨hdone, -, hholds⟩ := exec_holds hstd hrel h (.remove id) trivial
    refine ⟨?_, _, hholds, ?_⟩
    · simp [Prog.run, MemeMap.answer, deleteReply, hdone]
    · simp only [MemeStatement.apply, cStr_of_nulFree hc]
      exact hm.remove id
  | view id =>
    obtain rfl := Option.some.inj hp
    exact run_view hstd hrel h hm hsane hbound hc
  | other => contradiction

/-- **One request**: the table goes on storing the map, and a response that
concerns one meme is the map's. -/
theorem run_handleRequest {db : Db} {records : Multiset MemeRecord} {m : MemeMap} {bound : Nat}
    (h : Holds L db records) (hm : Stores records m) (hsane : m.Sane bound)
    (hbound : bound + 1 < 2 ^ 31) {uuid : Bytes} {req : Request}
    (hc : (command uuid req).Ready m) :
    (∀ response, m.answer (command uuid req) = some response →
        ((handleRequest uuid req).run L.exec db).1 = .ok response) ∧
      ∃ records', Holds L ((handleRequest uuid req).run L.exec db).2 records' ∧
        Stores records' (m.apply (command uuid req)) := by
  rcases handleRequest_command uuid req with hp | ⟨hother, hlists⟩
  -- the request concerns one meme
  · obtain ⟨hanswer, hstores⟩ := run_program hstd hrel h hm hsane hbound hc hp
    refine ⟨fun response hresponse => ?_, hstores⟩
    rw [hresponse] at hanswer
    exact Option.some.inj hanswer
  -- it lists, searches, or never comes to a statement: no query changes the table
  · rw [hother]
    refine ⟨fun response hresponse => by contradiction, records, ?_, hm⟩
    refine hlists.issues.run_invariant (I := fun db => Holds L db records) ?_ h
    intro db q hq hdb
    obtain ⟨s, rfl, hs⟩ : ∃ s : MemeStatement, q = s.statement ∧ s.apply records = records := by
      rcases hq with rfl | ⟨query, rfl⟩
      · exact ⟨.all, rfl, rfl⟩
      · exact ⟨.search query, rfl, rfl⟩
    obtain ⟨hdone, hfailed⟩ := exec_statement hstd hdb s
    cases hres : (L.exec db s.statement).1.done with
    | true => exact hs ▸ (hdone hres).2.2
    | false => exact hfailed hres

end Run

/-! ## A sequence of requests -/

section Sequence

variable {Db : Type} (L : Sqlite Db)

/-- The state after a sequence of requests. -/
def serveAll (db : Db) (reqs : List Arrival) : Db :=
  reqs.foldl (fun db r => (r.handle.run L.exec db).2) db

/-- The map after a sequence of requests, from the empty one. -/
def applyAll (reqs : List Arrival) : MemeMap :=
  reqs.foldl (fun m r => m.apply r.command) fun _ => none

/-- The ids drawn for new memes. -/
def drawnIds (reqs : List Arrival) : List Bytes := reqs.filterMap fun r => r.command.drawn

/-- A sequence as the handler may meet it: not too long, no NUL in a URI, and
UUIDs that are never drawn twice. -/
structure ValidSequence (reqs : List Arrival) : Prop where
  short : reqs.length < 2 ^ 31 - 1
  uris : ∀ r ∈ reqs, NulFree r.request.uri
  uuids : ∀ r ∈ reqs, IsUuid r.uuid
  fresh : (drawnIds reqs).Nodup

/-- The request was answered 303, 400, 404 or 405, or it asked for a list, or
its handling threw. -/
def LeavesAlone (req : Request) (outcome : Except Abort Response) : Prop :=
  (∃ e, outcome = .error e) ∨
    (∃ response, outcome = .ok response ∧ response.statusCode ∈ [303, 400, 404, 405]) ∨
    IsListing req

/-- The table refines the map: it stores the map after any beginning of the
sequence, the next request is answered as the map says, and requests that are
to leave the map alone do. -/
structure StoreRefines (db : Db) (reqs : List Arrival) : Prop where
  table : ∀ before after, reqs = before ++ after →
    ∃ records, Holds L (serveAll L db before) records ∧ Stores records (applyAll before)
  answers : ∀ before r after, reqs = before ++ r :: after → ∀ response,
    (applyAll before).answer r.command = some response →
      (r.handle.run L.exec (serveAll L db before)).1 = .ok response
  unchanged : ∀ before r after, reqs = before ++ r :: after →
    LeavesAlone r.request (r.handle.run L.exec (serveAll L db before)).1 →
      applyAll (before ++ [r]) = applyAll before

end Sequence

theorem applyAll_concat (reqs : List Arrival) (r : Arrival) :
    applyAll (reqs ++ [r]) = (applyAll reqs).apply r.command := by
  simp [applyAll]

theorem command_of_listing {uuid : Bytes} {req : Request} (h : IsListing req) :
    command uuid req = .other := by
  obtain ⟨hget, htarget⟩ := h
  unfold command
  rw [if_neg (by rw [hget]; decide), if_neg (by rw [hget]; decide), if_neg (by rw [hget]; decide),
    if_pos hget]
  rcases htarget with htarget | ⟨query, htarget⟩ <;> rw [htarget]

/-- A request is ready in a map that lacks the UUID drawn for it. -/
theorem Arrival.ready {m : MemeMap} {r : Arrival} (huuid : NulFree r.uuid)
    (huri : NulFree r.request.uri) (hfresh : ∀ id, r.command.drawn = some id → m id = none) :
    r.command.Ready m := by
  have hproper : r.command.Proper := command_proper huuid
  have hcases : CommandOf r.uuid r.request r.command := command_cases _ _
  generalize r.command = asked at hproper hfresh hcases
  cases hcases with
  | add => exact ⟨hproper.1, hproper.2, hfresh _ rfl⟩
  | replace => exact hproper
  | remove => exact hproper
  | view => exact nulFree_checkUri huri
  | other => trivial

/-- Only an id that was drawn is in the map. -/
theorem mem_drawnIds_of_applyAll {reqs : List Arrival} {id : Bytes} {meme : Meme}
    (h : applyAll reqs id = some meme) : id ∈ drawnIds reqs := by
  induction reqs using List.reverseRecOn generalizing meme with
  | nil => contradiction
  | append_singleton reqs r ih =>
    have keep : ∀ {meme}, applyAll reqs id = some meme → id ∈ drawnIds (reqs ++ [r]) := by
      intro meme h
      rw [drawnIds, List.filterMap_append]
      exact List.mem_append_left _ (ih h)
    rw [applyAll_concat] at h
    cases hc : r.command with
    | add id' texts =>
      by_cases hid : id = id'
      · simp [drawnIds, hc, MemeCommand.drawn, hid]
      · rw [hc, MemeMap.apply, Function.update_of_ne hid] at h
        exact keep h
    | replace id' texts =>
      rw [hc, MemeMap.apply, Function.update_apply] at h
      split_ifs at h with hid
      · obtain ⟨old, hold, -⟩ := Option.map_eq_some_iff.mp h
        exact keep (hid ▸ hold)
      · exact keep h
    | remove id' =>
      rw [hc, MemeMap.apply, Function.update_apply] at h
      split_ifs at h
      exact keep h
    | view id' =>
      rw [hc, MemeMap.apply, Function.update_apply] at h
      split_ifs at h with hid
      · obtain ⟨old, hold, -⟩ := Option.map_eq_some_iff.mp h
        exact keep (hid ▸ hold)
      · exact keep h
    | other =>
      rw [hc] at h
      exact keep h

@[simp] theorem typedResponse_statusCode (code : Nat) (body contentType : Bytes) :
    (typedResponse code body contentType).statusCode = code := rfl

/-- A command that the map does not answer with success leaves the map alone. -/
theorem MemeMap.apply_of_answer {m : MemeMap} {c : MemeCommand}
    (h : ∀ response, m.answer c = some response → response.statusCode ∉ [200, 201]) :
    m.apply c = m := by
  cases c with
  | add id texts => exact absurd (h _ rfl) (by simp)
  | replace id texts => exact absurd (h _ rfl) (by simp)
  | remove id => exact absurd (h _ rfl) (by simp)
  | view id =>
    cases hid : m id with
    | none => rw [MemeMap.apply, hid, Option.map_none, ← hid, Function.update_eq_self]
    | some meme =>
      rw [MemeMap.answer, hid] at h
      exact absurd (h _ rfl) (by simp)
  | other => rfl

/-- Where the outcome is the map's, it says that the map is left alone. -/
theorem apply_eq_of_leavesAlone {m : MemeMap} {uuid : Bytes} {req : Request}
    {outcome : Except Abort Response}
    (hanswer : ∀ response, m.answer (command uuid req) = some response → outcome = .ok response)
    (h : LeavesAlone req outcome) : m.apply (command uuid req) = m := by
  rcases h with ⟨e, rfl⟩ | ⟨response, rfl, hstatus⟩ | hlisting
  · refine MemeMap.apply_of_answer fun response hresponse => ?_
    have := hanswer response hresponse
    contradiction
  · refine MemeMap.apply_of_answer fun response' hresponse => ?_
    obtain rfl := Except.ok.inj (hanswer response' hresponse)
    intro hsuccess
    simp only [List.mem_cons, List.not_mem_nil, or_false] at hstatus hsuccess
    omega
  · rw [command_of_listing hlisting]
    rfl

/-- A beginning of a valid sequence is valid. -/
theorem ValidSequence.before {before after : List Arrival} (h : ValidSequence (before ++ after)) :
    ValidSequence before := by
  have hlength := h.short
  have hnodup := h.fresh
  rw [List.length_append] at hlength
  rw [drawnIds, List.filterMap_append] at hnodup
  exact ⟨by omega, fun r hr => h.uris r (List.mem_append_left _ hr),
    fun r hr => h.uuids r (List.mem_append_left _ hr), hnodup.of_append_left⟩

/-- The request after a beginning of a valid sequence is ready. -/
theorem ValidSequence.ready {before : List Arrival} {r : Arrival}
    (h : ValidSequence (before ++ [r])) : r.command.Ready (applyAll before) := by
  refine Arrival.ready (h.uuids r (by simp)).nulFree (h.uris r (by simp)) fun id hdrawn => ?_
  refine Option.eq_none_iff_forall_ne_some.mpr fun meme hsome => ?_
  have hnodup := h.fresh
  rw [drawnIds, List.filterMap_append] at hnodup
  refine List.disjoint_of_nodup_append hnodup (mem_drawnIds_of_applyAll hsome) ?_
  simp [hdrawn]

section Refinement

variable {Db : Type} {L : Sqlite Db} (hstd : L.Standard memeSchema)
  (hrel : L.Reliable memeSchema) {db : Db} (hempty : L.rows db = 0)

include hstd hrel hempty

/-- What holds after a valid sequence: the table stores the map, in which every
meme is one that the handler can read back. -/
theorem serveAll_stores {reqs : List Arrival} (h : ValidSequence reqs) :
    (∃ records, Holds L (serveAll L db reqs) records ∧ Stores records (applyAll reqs)) ∧
      (applyAll reqs).Sane reqs.length := by
  induction reqs using List.reverseRecOn with
  | nil => exact ⟨⟨0, hempty, .empty⟩, fun _ _ h => by contradiction⟩
  | append_singleton reqs r ih =>
    obtain ⟨⟨records, hholds, hstores⟩, hsane⟩ := ih h.before
    have hshort := h.short
    rw [List.length_append, List.length_singleton] at hshort
    obtain ⟨-, records', hholds', hstores'⟩ :=
      run_handleRequest hstd hrel hholds hstores hsane (by omega) h.ready
    rw [applyAll_concat, serveAll, List.foldl_append, List.length_append]
    exact ⟨⟨records', hholds', hstores'⟩, hsane.apply h.ready⟩

/-- The answer to the request after a beginning of a valid sequence. -/
theorem serveAll_answers {before : List Arrival} {r : Arrival} (h : ValidSequence (before ++ [r]))
    {response : Response} (hanswer : (applyAll before).answer r.command = some response) :
    (r.handle.run L.exec (serveAll L db before)).1 = .ok response := by
  obtain ⟨⟨records, hholds, hstores⟩, hsane⟩ := serveAll_stores hstd hrel hempty h.before
  have hshort := h.short
  rw [List.length_append, List.length_singleton] at hshort
  exact (run_handleRequest hstd hrel hholds hstores hsane (by omega) h.ready).1 response hanswer

/-- **The meme store refines the map of memes**, whatever valid sequence of
requests it serves from the empty table on. -/
theorem meme_store_refines {reqs : List Arrival} (h : ValidSequence reqs) :
    StoreRefines L db reqs := by
  have hbefore : ∀ before r after, reqs = before ++ r :: after →
      ValidSequence (before ++ [r]) := by
    rintro before r after rfl
    rw [List.append_cons] at h
    exact h.before
  refine ⟨?_, ?_, ?_⟩
  · rintro before after rfl
    exact (serveAll_stores hstd hrel hempty h.before).1
  · intro before r after heq response hanswer
    exact serveAll_answers hstd hrel hempty (hbefore before r after heq) hanswer
  · intro before r after heq hleaves
    rw [applyAll_concat]
    refine apply_eq_of_leavesAlone (fun response hanswer => ?_) hleaves
    exact serveAll_answers hstd hrel hempty (hbefore before r after heq) hanswer

end Refinement

/-- One POST, then a GET of what it created. -/
theorem meme_store_refines_post_get : StoreRefines (reference memeSchema) []
    [⟨"00000000-0000-4000-8000-000000000001", ⟨"", "POST", "/memes/", ∅,
        "memeSelect=a.jpg&topCaption=b&bottomCaption=c", ∅, true⟩⟩,
      ⟨"00000000-0000-4000-8000-000000000002", ⟨"", "GET",
        "/memes/00000000-0000-4000-8000-000000000001", ∅, "", ∅, true⟩⟩] :=
  meme_store_refines (reference_standard memeSchema) (reference_reliable memeSchema) rfl
    ⟨by decide, by decide, by decide, by decide +kernel⟩

end GittyUp
