import GittyUp.Meme.Command
import Mathlib.Data.Fin.VecNotation

/-!
# Concurrent requests to the meme store

Requests are served by threads whose SQL statements, each atomic, interleave in
any order, and may fail. `memes_intact`: a meme keeps the texts of one request,
the last that wrote them, and one that has been deleted does not come back.
-/

namespace GittyUp

open Lib

/-! ## The statements of a request -/

/-- The statements that the request behind a command may issue. -/
def MemeCommand.MayIssue : MemeCommand → MemeStatement → Prop
  | .add id texts, s => s = .insert id texts
  | .replace id texts, s => s = .replace id texts
  | .remove id, s => s = .remove id
  | .view _, s => (∃ id, s = .byId id) ∨ ∃ id views, s = .setViews id views
  | .other, s => s = .all ∨ ∃ query, s = .search query

/-- After its `SELECT`, a GET of one meme issues at most an update of views. -/
theorem issues_countView {P : SqlStatement → Prop}
    (hP : ∀ id views, P (MemeStatement.setViews id views).statement) (rows : List Row) :
    (countView rows).Issues P := by
  unfold countView
  split
  · split
    · split
      · trivial
      · exact ⟨hP _ _, fun _ => trivial⟩
    · trivial
  · trivial

theorem issues_program {c : MemeCommand} {p : MemeProg Response} (h : c.program = some p) :
    p.Issues fun q => ∃ s, q = s.statement ∧ c.MayIssue s := by
  cases c with
  | add id texts =>
    obtain rfl := Option.some.inj h
    exact ⟨⟨_, rfl, rfl⟩, fun _ => trivial⟩
  | replace id texts =>
    obtain rfl := Option.some.inj h
    exact ⟨⟨_, rfl, rfl⟩, fun _ => trivial⟩
  | remove id =>
    obtain rfl := Option.some.inj h
    exact ⟨⟨_, rfl, rfl⟩, fun _ => trivial⟩
  | view id =>
    obtain rfl := Option.some.inj h
    refine ⟨⟨_, rfl, .inl ⟨_, rfl⟩⟩, fun reply => ?_⟩
    exact issues_countView (fun id views => ⟨_, rfl, .inr ⟨id, views, rfl⟩⟩) _
  | other => contradiction

/-- **A request issues only statements that its command stands for.** -/
theorem issues_handle (r : Arrival) :
    r.handle.Issues fun q => ∃ s, q = s.statement ∧ r.command.MayIssue s := by
  rcases handleRequest_command r.uuid r.request with hp | ⟨hother, hlists⟩
  · exact issues_program hp
  · refine hlists.issues.mono fun q hq => ?_
    rw [Arrival.command, hother]
    rcases hq with rfl | ⟨query, rfl⟩
    · exact ⟨.all, rfl, .inl rfl⟩
    · exact ⟨.search query, rfl, .inr ⟨query, rfl⟩⟩

/-! ## What has been executed -/

/-- A statement that a thread has executed, with its reply. -/
abbrev MemeEvent (ι : Type) := Event ι SqlStatement SqlReply

section Log

variable {ι : Type}

/-- The commands whose statements have completed, in the order of execution. A
command that writes issues a single statement. -/
def executedCommands (arrivals : ι → Arrival) (trace : List (MemeEvent ι)) : List MemeCommand :=
  (trace.filter fun e => e.reply.done).map fun e => (arrivals e.thread).command

theorem executedCommands_done {arrivals : ι → Arrival} {trace : List (MemeEvent ι)}
    {e : MemeEvent ι} (h : e.reply.done = true) :
    executedCommands arrivals (trace ++ [e]) =
      executedCommands arrivals trace ++ [(arrivals e.thread).command] := by
  simp [executedCommands, h]

theorem executedCommands_failed {arrivals : ι → Arrival} {trace : List (MemeEvent ι)}
    {e : MemeEvent ι} (h : e.reply.done = false) :
    executedCommands arrivals (trace ++ [e]) = executedCommands arrivals trace := by
  simp [executedCommands, h]

end Log

/-- The command draws an id that an earlier one has drawn or deleted. -/
def MemeCommand.Reuses : (later earlier : MemeCommand) → Prop
  | .add id _, .add id' _ => id = id'
  | .add id _, .remove id' => id = id'
  | _, _ => False

instance (later earlier : MemeCommand) : Decidable (later.Reuses earlier) := by
  unfold MemeCommand.Reuses
  split <;> infer_instance

/-- No id is drawn that was drawn or deleted before. -/
def FreshIds (log : List MemeCommand) : Prop :=
  log.Pairwise fun earlier later => ¬ later.Reuses earlier

instance (log : List MemeCommand) : Decidable (FreshIds log) :=
  inferInstanceAs (Decidable (log.Pairwise _))

/-- The texts of the last replacement for an id, or else those given. -/
def lastTexts (id : Bytes) (texts : MemeTexts) (log : List MemeCommand) : MemeTexts :=
  log.foldl (fun texts c =>
    match c with
    | .replace id' texts' => if id' = id then texts' else texts
    | _ => texts) texts

/-- The command `c` replaces the texts of `id`. -/
def MemeCommand.replaced (c : MemeCommand) (id : Bytes) (texts : MemeTexts) : MemeTexts :=
  lastTexts id texts [c]

theorem lastTexts_concat (id : Bytes) (texts : MemeTexts) (log : List MemeCommand)
    (c : MemeCommand) :
    lastTexts id texts (log ++ [c]) = c.replaced id (lastTexts id texts log) := by
  simp only [MemeCommand.replaced, lastTexts, List.foldl_append, List.foldl_cons, List.foldl_nil]

/-! ## The invariant -/

/-- The texts of a record are those of the POST that created it or, after
PUTs on its id, those of the last one. -/
def MemeRecord.Written (log : List MemeCommand) (r : MemeRecord) : Prop :=
  ∃ before texts after, log = before ++ .add r.id texts :: after ∧
    r.texts = lastTexts r.id texts after

/-- Every meme in the table was written by the log, and none was deleted. -/
structure Intact (log : List MemeCommand) (records : Multiset MemeRecord) : Prop where
  written : ∀ r ∈ records, r.Written log
  present : ∀ r ∈ records, .remove r.id ∉ log

/-- A new record is written by its command. -/
theorem MemeRecord.Written.new {log : List MemeCommand} {r : MemeRecord} :
    r.Written (log ++ [.add r.id r.texts]) :=
  ⟨log, r.texts, [], rfl, rfl⟩

/-- A command that changes the texts of a record as it should keeps it written. -/
theorem MemeRecord.Written.concat {log : List MemeCommand} {r r' : MemeRecord}
    (h : r.Written log) {c : MemeCommand} (hid : r'.id = r.id)
    (htexts : r'.texts = c.replaced r.id r.texts) : r'.Written (log ++ [c]) := by
  obtain ⟨before, texts, after, rfl, hlast⟩ := h
  refine ⟨before, texts, after ++ [c], by rw [hid, List.append_assoc, List.cons_append], ?_⟩
  rw [htexts, hid, lastTexts_concat, hlast]

/-- A record after a statement is new, or what the command made of an old one. -/
theorem mem_apply {c : MemeCommand} (hc : c.Proper) {s : MemeStatement} (hs : c.MayIssue s)
    {records : Multiset MemeRecord} {r' : MemeRecord} (h : r' ∈ s.apply records) :
    c = .add r'.id r'.texts ∨
      ∃ r ∈ records, r'.id = r.id ∧ r'.texts = c.replaced r.id r.texts ∧ c ≠ .remove r.id := by
  cases c with
  | add id texts =>
    obtain rfl := hs
    rcases Multiset.mem_cons.mp h with rfl | hr
    · exact .inl (by rw [cStr_of_nulFree hc.1, hc.2.cStr_eq])
    · exact .inr ⟨r', hr, rfl, rfl, by simp⟩
  | replace id texts =>
    obtain rfl := hs
    obtain ⟨r, hr, rfl⟩ := Multiset.mem_map.mp h
    refine .inr ⟨r, hr, ?_, ?_, by simp⟩
    · split_ifs <;> rfl
    · rw [cStr_of_nulFree hc.1, hc.2.cStr_eq]
      simp only [MemeCommand.replaced, lastTexts, List.foldl_cons, List.foldl_nil,
        eq_comm (a := id)]
      split_ifs <;> rfl
  | remove id =>
    obtain rfl := hs
    obtain ⟨hr, hid⟩ := Multiset.mem_filter.mp h
    rw [cStr_of_nulFree hc] at hid
    exact .inr ⟨r', hr, rfl, rfl, fun heq => hid (MemeCommand.remove.inj heq).symm⟩
  | view id =>
    rcases hs with ⟨id', rfl⟩ | ⟨id', views, rfl⟩
    · exact .inr ⟨r', h, rfl, rfl, by simp⟩
    · obtain ⟨r, hr, rfl⟩ := Multiset.mem_map.mp h
      refine .inr ⟨r, hr, ?_, ?_, by simp⟩ <;> split_ifs <;> rfl
  | other =>
    rcases hs with rfl | ⟨query, rfl⟩ <;> exact .inr ⟨r', h, rfl, rfl, by simp⟩

/-- **One completed statement keeps the memes intact.** -/
theorem Intact.apply {log : List MemeCommand} {records : Multiset MemeRecord}
    (h : Intact log records) {c : MemeCommand} (hc : c.Proper) {s : MemeStatement}
    (hs : c.MayIssue s) (hfresh : FreshIds (log ++ [c])) :
    Intact (log ++ [c]) (s.apply records) := by
  have hreuse : ∀ c' ∈ log, ¬ c.Reuses c' := fun c' hc' =>
    (List.pairwise_append.mp hfresh).2.2 c' hc' c (List.mem_singleton_self c)
  constructor
  · intro r' hr'
    rcases mem_apply hc hs hr' with rfl | ⟨r, hr, hid, htexts, -⟩
    · exact .new
    · exact (h.written r hr).concat hid htexts
  · intro r' hr'
    rw [List.mem_append, List.mem_singleton, not_or]
    rcases mem_apply hc hs hr' with rfl | ⟨r, hr, hid, -, hne⟩
    · exact ⟨fun hmem => hreuse _ hmem rfl, by simp⟩
    · rw [hid]
      exact ⟨h.present r hr, hne.symm⟩

/-! ## Every interleaving -/

section Interleaving

variable {ι : Type} [DecidableEq ι] {Db : Type} {L : Sqlite Db}

/-- The threads that serve the requests, none of which has begun. -/
def serving (db : Db) (arrivals : ι → Arrival) : Pool Abort SqlStatement SqlReply Response Db ι :=
  Pool.start db fun i => (arrivals i).handle

/-- **No torn and no resurrected meme**: in whatever order the statements of any
number of requests are executed, the table holds only memes that are intact. -/
theorem memes_intact (hstd : L.Standard memeSchema) {db : Db} (hempty : L.rows db = 0)
    {arrivals : ι → Arrival} (huuids : ∀ i, IsUuid (arrivals i).uuid)
    {s : Pool Abort SqlStatement SqlReply Response Db ι}
    (h : Reachable (Pool.Step L.exec) (serving db arrivals) s)
    (hfresh : FreshIds (executedCommands arrivals s.trace)) :
    ∃ records, Holds L s.shared records ∧ Intact (executedCommands arrivals s.trace) records := by
  refine Pool.invariant h
    (P := fun i q => ∃ st, q = st.statement ∧ (arrivals i).command.MayIssue st)
    (I := fun db trace => FreshIds (executedCommands arrivals trace) →
      ∃ records, Holds L db records ∧ Intact (executedCommands arrivals trace) records)
    (fun i => issues_handle (arrivals i)) ?_ ?_ hfresh
  · exact fun _ => ⟨0, hempty, by simp, by simp⟩
  · rintro db trace i _ ⟨st, rfl, hst⟩ hinv hfresh
    cases hdone : (L.exec db st.statement).1.done with
    | false =>
      -- a statement that fails leaves the table and the log as they were
      rw [executedCommands_failed hdone] at hfresh ⊢
      obtain ⟨records, hholds, hintact⟩ := hinv hfresh
      exact ⟨records, (exec_statement hstd hholds st).2 hdone, hintact⟩
    | true =>
      rw [executedCommands_done hdone] at hfresh ⊢
      obtain ⟨records, hholds, hintact⟩ := hinv (List.pairwise_append.mp hfresh).1
      have hproper : (arrivals i).command.Proper := command_proper (huuids i).nulFree
      exact ⟨_, ((exec_statement hstd hholds st).1 hdone).2.2, hintact.apply hproper hst hfresh⟩

end Interleaving

/-- A PUT between the two statements of a GET. -/
theorem memes_intact_post_get_put :
    let arrivals : Fin 3 → Arrival :=
      ![⟨"00000000-0000-4000-8000-000000000001", ⟨"", "POST", "/memes/", ∅,
          "memeSelect=a.jpg&topCaption=b&bottomCaption=c", ∅, true⟩⟩,
        ⟨"00000000-0000-4000-8000-000000000002", ⟨"", "GET",
          "/memes/00000000-0000-4000-8000-000000000001", ∅, "", ∅, true⟩⟩,
        ⟨"00000000-0000-4000-8000-000000000003", ⟨"", "PUT",
          "/memes/00000000-0000-4000-8000-000000000001", ∅,
          "memeSelect=d.jpg&topCaption=e&bottomCaption=f", ∅, true⟩⟩]
    ∃ s, (serving [] arrivals).play (reference memeSchema).exec [0, 1, 2, 1] = some s ∧
      ∃ records, Holds (reference memeSchema) s.shared records ∧
        Intact (executedCommands arrivals s.trace) records := by
  intro arrivals
  have hplay : ((serving [] arrivals).play (reference memeSchema).exec [0, 1, 2, 1]).any
      fun s => FreshIds (executedCommands arrivals s.trace) := by
    decide +kernel
  obtain ⟨s, hs, hfresh⟩ := (Option.any_eq_true _ _).mp hplay
  exact ⟨s, hs, memes_intact (reference_standard memeSchema) rfl (by decide)
    (Pool.reachable_of_play hs) (of_decide_eq_true hfresh)⟩

end GittyUp
