import GittyUp.Meme.SqlLib
import Mathlib.Data.Finset.Card

/-!
# Statement handles (`sql_lib.cc`)

A connection keeps the set of its prepared statements, and cannot be closed
before all of them are finalized. `balanced_iff`: a sequence of calls of the
`sql_manager` leaves none open exactly when every statement that is prepared
ends with `SQLITE_DONE`, and hands out no NULL before.
-/

namespace GittyUp

open Lib

/-! ## SQLite -/

/-- A connection: the handles of its open statements, and the next one. -/
structure Connection where
  openStatements : Finset Nat
  next : Nat
  fresh : ∀ h ∈ openStatements, h < next

namespace Connection

/-- A connection that has just been opened. -/
def opened : Connection := ⟨∅, 0, by simp⟩

/-- `sqlite3_prepare_v2`: it gives a new handle, or a null pointer if it fails. -/
def prepare (conn : Connection) (succeeds : Bool) : Option Nat × Connection :=
  if succeeds then
    (some conn.next, ⟨insert conn.next conn.openStatements, conn.next + 1, fun h hh => by
      rcases Finset.mem_insert.mp hh with rfl | hh
      · omega
      · exact Nat.lt_succ_of_lt (conn.fresh h hh)⟩)
  else (none, conn)

/-- `sqlite3_finalize`, which accepts a null pointer. -/
def finalize (conn : Connection) : Option Nat → Connection
  | none => conn
  | some h => ⟨conn.openStatements.erase h, conn.next, fun h' hh' =>
      conn.fresh h' (Finset.mem_of_mem_erase hh')⟩

/-- `sql_manager::disconnect`: `sqlite3_close` is refused while statements are
open. -/
def disconnect (conn : Connection) : Bool := conn.openStatements = ∅

end Connection

/-- The first result code of `sqlite3_step` that is not `SQLITE_ROW`. -/
inductive LastCode where
  | done
  | failure (code : Nat)
  deriving DecidableEq, Repr

/-- The columns of a row, as `sqlite3_column_text` gives them: a column that is
NULL gives a null pointer. -/
abbrev ColumnTexts := List (Option Bytes)

/-- What SQLite answers to one function of the `sql_manager`: whether the
statement can be prepared, and what stepping through it returns; for a statement
that is executed at once, whether that succeeds. -/
structure SqlAnswers where
  succeeds : Bool
  rows : List ColumnTexts
  last : LastCode

/-- What `sqlite3_step` returns, time after time: a null pointer is a misuse. -/
def SqlAnswers.results (answers : SqlAnswers) : Option Nat → List ColumnTexts × LastCode
  | none => ([], .failure 21)
  | some _ => (answers.rows, answers.last)

/-! ## The functions -/

/-- The end of `insert_record`, `update_record` and `delete_record`: one step. -/
def stepOnce (conn : Connection) (stmt : Option Nat) :
    List ColumnTexts × LastCode → Bool × Connection
  | ([], .done) => (true, conn.finalize stmt)
  | _ => (false, conn)

/-- The columns of a row as strings: `std::string` throws on a null pointer
(`none`). -/
def columnStrings : ColumnTexts → Option Row
  | [] => some []
  | none :: _ => none
  | some text :: columns => (columnStrings columns).map (cStr text :: ·)

/-- The loop of `select_record` and `search_record`. An exception (`none`) leaves
it at once. -/
def collectRows (conn : Connection) (stmt : Option Nat) (last : LastCode) :
    List ColumnTexts → List Row → Option (List Row) × Connection
  | columns :: rows, result =>
    match columnStrings columns with
    | some temp => collectRows conn stmt last rows (result ++ [temp])
    | none => (none, conn)
  | [], result =>
    match last with
    | .done => (some result, conn.finalize stmt)
    | .failure _ => (some result, conn)

/-- A call of a function of the `sql_manager`. -/
inductive SqlCall where
  | createTable (table : Bytes) (params : QueryParams)
  | dropTable (table : Bytes)
  | insertRecord (table : Bytes) (params : QueryParams)
  | updateRecord (table : Bytes) (setParams whereParams : QueryParams)
  | deleteRecord (table : Bytes) (params : QueryParams)
  | selectRecord (table : Bytes) (params : QueryParams)
  | searchRecord (table : Bytes) (params : QueryParams)

/-- What a call returns, or that it ends with an exception. -/
inductive SqlResult where
  | flag (b : Bool)
  | records (rows : List Row)
  | thrown
  deriving DecidableEq

/-- Prepare a statement and step once. -/
def prepareAndStep (answers : SqlAnswers) (conn : Connection) : SqlResult × Connection :=
  let (stmt, conn) := conn.prepare answers.succeeds
  let (ok, conn) := stepOnce conn stmt (answers.results stmt)
  (.flag ok, conn)

/-- Prepare a statement and collect its rows. -/
def prepareAndCollect (answers : SqlAnswers) (conn : Connection) : SqlResult × Connection :=
  let (stmt, conn) := conn.prepare answers.succeeds
  let (rows, conn) := collectRows conn stmt (answers.results stmt).2 (answers.results stmt).1 []
  (rows.elim .thrown .records, conn)

/-- The functions of the `sql_manager`. `sqlite3_exec` finalizes what it has
prepared by itself. -/
def SqlCall.run (answers : SqlAnswers) (conn : Connection) : SqlCall → SqlResult × Connection
  | .createTable _ _ => (.flag answers.succeeds, conn)
  | .dropTable _ => (.flag answers.succeeds, conn)
  | .insertRecord _ _ => prepareAndStep answers conn
  | .updateRecord _ _ _ => prepareAndStep answers conn
  | .deleteRecord _ _ => prepareAndStep answers conn
  | .selectRecord _ _ => prepareAndCollect answers conn
  | .searchRecord _ _ => prepareAndCollect answers conn

/-- Calls one after another, each with what SQLite answers. -/
def runCalls (calls : List (SqlCall × SqlAnswers)) (conn : Connection) : Connection :=
  calls.foldl (fun conn call => (call.1.run call.2 conn).2) conn

/-- No statement is open after any of the calls, so that the connection could be
closed then. -/
def Balanced (calls : List (SqlCall × SqlAnswers)) : Prop :=
  ∀ before, before <+: calls → (runCalls before .opened).openStatements = ∅ ∧
    (runCalls before .opened).disconnect = true

/-- A column of one of the rows is NULL. -/
def SqlAnswers.HasNull (answers : SqlAnswers) : Prop := ∃ columns ∈ answers.rows, none ∈ columns

/-- The call prepares a statement, and does not end with `SQLITE_DONE`: the first
step decides where there is only one; where rows are collected, a NULL among them
ends the call before that. -/
def SqlCall.Leaks (answers : SqlAnswers) : SqlCall → Prop
  | .createTable _ _ | .dropTable _ => False
  | .insertRecord _ _ | .updateRecord _ _ _ | .deleteRecord _ _ =>
    answers.succeeds = true ∧ ¬ (answers.rows = [] ∧ answers.last = .done)
  | .selectRecord _ _ | .searchRecord _ _ =>
    answers.succeeds = true ∧ (answers.HasNull ∨ answers.last ≠ .done)

/-! ## One call -/

theorem Connection.next_not_mem (conn : Connection) : conn.next ∉ conn.openStatements :=
  fun h => Nat.lt_irrefl _ (conn.fresh _ h)

/-- Finalizing what was just prepared gives back the open statements. -/
theorem Connection.finalize_prepare (conn : Connection) (succeeds : Bool) :
    ((conn.prepare succeeds).2.finalize (conn.prepare succeeds).1).openStatements =
      conn.openStatements := by
  cases succeeds with
  | false => rfl
  | true => exact Finset.erase_insert conn.next_not_mem

theorem columnStrings_eq_none {columns : ColumnTexts} :
    columnStrings columns = none ↔ none ∈ columns := by
  induction columns with
  | nil => simp [columnStrings]
  | cons text columns ih => cases text <;> simp [columnStrings, ih]

/-- The loop finalizes the statement behind the last row, if it gets there. -/
theorem collectRows_snd (conn : Connection) (stmt : Option Nat) (last : LastCode)
    (rows : List ColumnTexts) (result : List Row) :
    ((∃ columns ∈ rows, none ∈ columns) ∨ last ≠ .done →
        (collectRows conn stmt last rows result).2 = conn) ∧
      (¬ ((∃ columns ∈ rows, none ∈ columns) ∨ last ≠ .done) →
        (collectRows conn stmt last rows result).2 = conn.finalize stmt) := by
  induction rows generalizing result with
  | nil => cases last <;> simp [collectRows]
  | cons columns rows ih =>
    rw [collectRows, List.exists_mem_cons_iff]
    cases hstrings : columnStrings columns with
    | none => exact ⟨fun _ => rfl, fun h => absurd (.inl (.inl
        (columnStrings_eq_none.mp hstrings))) h⟩
    | some temp =>
      have hnull : none ∉ columns := by simp [← columnStrings_eq_none, hstrings]
      simpa [hnull] using ih (result ++ [temp])

theorem stepOnce_eq (conn : Connection) (stmt : Option Nat)
    (results : List ColumnTexts × LastCode) : stepOnce conn stmt results =
      if results.1 = [] ∧ results.2 = .done then (true, conn.finalize stmt) else (false, conn) := by
  obtain ⟨rows, last⟩ := results
  cases rows <;> cases last <;> simp [stepOnce]

/-- The statement stays open under the handle that the connection gave out. -/
def Connection.Keeps (conn conn' : Connection) : Prop :=
  conn'.openStatements = insert conn.next conn.openStatements

/-- A statement that is stepped through once is finalized when that step is the
last. -/
theorem prepareAndStep_openStatements (answers : SqlAnswers) (conn : Connection) :
    (¬ (answers.succeeds = true ∧ ¬ (answers.rows = [] ∧ answers.last = .done)) →
        (prepareAndStep answers conn).2.openStatements = conn.openStatements) ∧
      (answers.succeeds = true ∧ ¬ (answers.rows = [] ∧ answers.last = .done) →
        conn.Keeps (prepareAndStep answers conn).2) := by
  have hrun : (prepareAndStep answers conn).2 = (stepOnce (conn.prepare answers.succeeds).2
      (conn.prepare answers.succeeds).1
      (answers.results (conn.prepare answers.succeeds).1)).2 := rfl
  rw [hrun, stepOnce_eq]
  have hback := conn.finalize_prepare answers.succeeds
  cases hsucceeds : answers.succeeds with
  | false => exact ⟨fun _ => rfl, fun h => absurd h.1 Bool.false_ne_true⟩
  | true =>
    rw [hsucceeds] at hback
    show (_ → (if answers.rows = [] ∧ answers.last = .done then _ else _ :
      Bool × Connection).2.openStatements = _) ∧ (_ → conn.Keeps
        (if answers.rows = [] ∧ answers.last = .done then _ else _ : Bool × Connection).2)
    by_cases hdone : answers.rows = [] ∧ answers.last = .done
    · rw [if_pos hdone]
      exact ⟨fun _ => hback, fun h => absurd hdone h.2⟩
    · rw [if_neg hdone]
      exact ⟨fun h => absurd ⟨rfl, hdone⟩ h, fun _ => rfl⟩

/-- A statement whose rows are collected is finalized behind the last row. -/
theorem prepareAndCollect_openStatements (answers : SqlAnswers) (conn : Connection) :
    (¬ (answers.succeeds = true ∧ (answers.HasNull ∨ answers.last ≠ .done)) →
        (prepareAndCollect answers conn).2.openStatements = conn.openStatements) ∧
      (answers.succeeds = true ∧ (answers.HasNull ∨ answers.last ≠ .done) →
        conn.Keeps (prepareAndCollect answers conn).2) := by
  have hrun : (prepareAndCollect answers conn).2 = (collectRows (conn.prepare answers.succeeds).2
      (conn.prepare answers.succeeds).1 (answers.results (conn.prepare answers.succeeds).1).2
      (answers.results (conn.prepare answers.succeeds).1).1 []).2 := rfl
  rw [hrun]
  have hback := conn.finalize_prepare answers.succeeds
  cases hsucceeds : answers.succeeds with
  | false => exact ⟨fun _ => rfl, fun h => absurd h.1 Bool.false_ne_true⟩
  | true =>
    rw [hsucceeds] at hback
    have hloop := collectRows_snd (conn.prepare true).2 (conn.prepare true).1 answers.last
      answers.rows []
    constructor
    · intro hdone
      have hfinal := hloop.2 fun h => hdone ⟨rfl, h⟩
      exact (congrArg Connection.openStatements hfinal).trans hback
    · intro hleaks
      exact congrArg Connection.openStatements (hloop.1 hleaks.2)

/-- **One call** leaves the open statements as they are, unless it leaks its own. -/
theorem SqlCall.run_openStatements (call : SqlCall) (answers : SqlAnswers) (conn : Connection) :
    (¬ call.Leaks answers → (call.run answers conn).2.openStatements = conn.openStatements) ∧
      (call.Leaks answers → conn.Keeps (call.run answers conn).2) := by
  cases call with
  | createTable => exact ⟨fun _ => rfl, fun h => h.elim⟩
  | dropTable => exact ⟨fun _ => rfl, fun h => h.elim⟩
  | insertRecord => exact prepareAndStep_openStatements answers conn
  | updateRecord => exact prepareAndStep_openStatements answers conn
  | deleteRecord => exact prepareAndStep_openStatements answers conn
  | selectRecord => exact prepareAndCollect_openStatements answers conn
  | searchRecord => exact prepareAndCollect_openStatements answers conn

/-! ## Many calls -/

theorem runCalls_append (calls more : List (SqlCall × SqlAnswers)) (conn : Connection) :
    runCalls (calls ++ more) conn = runCalls more (runCalls calls conn) :=
  List.foldl_append

/-- Calls that do not leak leave the open statements as they are. -/
theorem runCalls_openStatements {calls : List (SqlCall × SqlAnswers)}
    (h : ∀ call ∈ calls, ¬ call.1.Leaks call.2) (conn : Connection) :
    (runCalls calls conn).openStatements = conn.openStatements := by
  induction calls generalizing conn with
  | nil => rfl
  | cons call calls ih =>
    obtain ⟨hcall, hcalls⟩ := List.forall_mem_cons.mp h
    exact (ih hcalls _).trans ((call.1.run_openStatements call.2 conn).1 hcall)

/-- **Statement handles are balanced** exactly when every statement that is
prepared ends with `SQLITE_DONE`, and no row that is collected has a NULL. -/
theorem balanced_iff (calls : List (SqlCall × SqlAnswers)) :
    Balanced calls ↔ ∀ call ∈ calls, ¬ call.1.Leaks call.2 := by
  constructor
  · intro h call hcall hleaks
    obtain ⟨before, after, rfl⟩ := List.append_of_mem hcall
    obtain ⟨hopen, -⟩ := h (before ++ [call]) ⟨after, by simp⟩
    rw [runCalls_append] at hopen
    have hkeeps := (call.1.run_openStatements call.2 (runCalls before .opened)).2 hleaks
    exact Finset.insert_ne_empty _ _ (hkeeps.symm.trans hopen)
  · rintro h before ⟨after, rfl⟩
    have hopen := runCalls_openStatements
      (fun call hcall => h call (List.mem_append_left _ hcall)) .opened
    exact ⟨hopen, decide_eq_true hopen⟩

/-- A row is inserted twice: the second insertion violates the primary key, and
the connection cannot be closed. -/
theorem insert_twice_not_balanced :
    ¬ Balanced [(.insertRecord "t" [("id", "1")], ⟨true, [], .done⟩),
        (.insertRecord "t" [("id", "1")], ⟨true, [], .failure 19⟩)] ∧
      (runCalls [(.insertRecord "t" [("id", "1")], ⟨true, [], .done⟩),
        (.insertRecord "t" [("id", "1")], ⟨true, [], .failure 19⟩)] .opened).disconnect =
          false := by
  have hclose : (runCalls [(.insertRecord "t" [("id", "1")], ⟨true, [], .done⟩),
      (.insertRecord "t" [("id", "1")], ⟨true, [], .failure 19⟩)] .opened).disconnect = false := by
    decide
  refine ⟨fun h => ?_, hclose⟩
  have := (h _ (List.prefix_refl _)).2
  rw [hclose] at this
  contradiction

end GittyUp
