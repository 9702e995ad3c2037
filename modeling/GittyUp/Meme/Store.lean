import GittyUp.Meme.Handler
import GittyUp.Meme.SqlText

/-!
# The statements of the meme handler

The rows of the meme table are `MemeRecord`s. `MemeStatement` lists the
statements that the handler has SQLite execute, and `exec_statement` says what
each of them does to the records, on any engine that follows the standard.
-/

namespace GittyUp

open Lib

/-! ## The table -/

/-- The table that the constructor of the handler creates. -/
def memeSchema : Schema where
  table := tableName
  columns := memeTableParams.map Prod.fst
  key := "id"
  columns_nodup := by decide
  key_mem := by decide

/-- The text that the constructor executes creates this table. -/
example : parseSql (createTableText tableName memeTableParams) = some (.create memeSchema.table
    (memeSchema.columns.map fun c => ⟨c, c = memeSchema.key⟩)) := by
  decide +kernel

/-- A row of the table. -/
structure MemeRecord where
  id : Bytes
  texts : MemeTexts
  views : Bytes
  deriving DecidableEq

/-- The row that SQLite holds for a record. -/
def MemeRecord.row (r : MemeRecord) : Row :=
  [r.id, r.texts.memeTemplate, r.texts.topCaption, r.texts.bottomCaption, r.views]

theorem MemeRecord.row_injective : Function.Injective MemeRecord.row := by
  rintro ⟨id, ⟨t, a, b⟩, v⟩ ⟨id', ⟨t', a', b'⟩, v'⟩ h
  simp only [MemeRecord.row, List.cons.injEq, and_true] at h
  obtain ⟨rfl, rfl, rfl, rfl, rfl⟩ := h
  rfl

/-- The table in the state `db` holds these records. -/
def Holds {Db : Type} (L : Sqlite Db) (db : Db) (records : Multiset MemeRecord) : Prop :=
  L.rows db = records.map MemeRecord.row

/-! ## The statements -/

/-- The texts as they are bound, each as a C string. -/
def MemeTexts.cStr (texts : MemeTexts) : MemeTexts :=
  ⟨Lib.cStr texts.memeTemplate, Lib.cStr texts.topCaption, Lib.cStr texts.bottomCaption⟩

/-- A statement of the meme handler. -/
inductive MemeStatement where
  | insert (id : Bytes) (texts : MemeTexts)
  | replace (id : Bytes) (texts : MemeTexts)
  | remove (id : Bytes)
  | setViews (id views : Bytes)
  | byId (id : Bytes)
  | all
  | search (query : Bytes)

namespace MemeStatement

/-- The statement that is prepared and bound. -/
def statement : MemeStatement → SqlStatement
  | .insert id texts => insertStatement tableName [("id", id), ("img_path", texts.memeTemplate),
      ("top_caption", texts.topCaption), ("bot_caption", texts.bottomCaption),
      ("times_viewed", "0")]
  | .replace id texts => updateStatement tableName [("img_path", texts.memeTemplate),
      ("top_caption", texts.topCaption), ("bot_caption", texts.bottomCaption)] [("id", id)]
  | .remove id => deleteStatement tableName [("id", id)]
  | .setViews id views => updateStatement tableName [("times_viewed", views)] [("id", id)]
  | .byId id => selectStatement tableName [("id", id)]
  | .all => selectStatement tableName []
  | .search query => searchStatement tableName [("top_caption", query), ("bot_caption", query)]

/-- `INSERT` of a whole record. -/
def insertSql : Sql := .insert tableName
  ["id", "img_path", "top_caption", "bot_caption", "times_viewed"] [1, 2, 3, 4, 5]

/-- `UPDATE` of the three texts of the record with an id. -/
def replaceSql : Sql := .update tableName
  [("img_path", 1), ("top_caption", 2), ("bot_caption", 3)] [("id", 4)]

/-- `UPDATE` of the view count of the record with an id. -/
def setViewsSql : Sql := .update tableName [("times_viewed", 1)] [("id", 2)]

/-- What the text of a statement says. -/
def sql : MemeStatement → Sql
  | .insert _ _ => insertSql
  | .replace _ _ => replaceSql
  | .remove _ => .delete tableName [("id", 1)]
  | .setViews _ _ => setViewsSql
  | .byId _ => .select tableName [("id", 1)]
  | .all => .select tableName []
  | .search _ => .search tableName [("top_caption", 1), ("bot_caption", 2)]

theorem isSqlName_tableName : IsSqlName tableName := by decide +kernel

theorem parse_insertText : parseSql (insertText tableName
    ["id", "img_path", "top_caption", "bot_caption", "times_viewed"]) = some insertSql :=
  parseSql_insertText isSqlName_tableName (by decide +kernel) (by decide +kernel)

theorem parse_replaceText : parseSql (updateText tableName
    ["img_path", "top_caption", "bot_caption"] ["id"]) = some replaceSql :=
  parseSql_updateText isSqlName_tableName (by decide +kernel) (by decide +kernel)
    (by decide +kernel)

theorem parse_setViewsText :
    parseSql (updateText tableName ["times_viewed"] ["id"]) = some setViewsSql :=
  parseSql_updateText isSqlName_tableName (by decide +kernel) (by decide +kernel)
    (by decide +kernel)

theorem parse_removeText :
    parseSql (deleteText tableName ["id"]) = some (.delete tableName [("id", 1)]) :=
  parseSql_deleteText isSqlName_tableName (by decide +kernel)

theorem parse_byIdText :
    parseSql (selectText tableName ["id"]) = some (.select tableName [("id", 1)]) :=
  parseSql_selectText isSqlName_tableName (by decide +kernel)

theorem parse_allText : parseSql (selectText tableName []) = some (.select tableName []) :=
  parseSql_selectText isSqlName_tableName (by decide +kernel)

theorem parse_searchText : parseSql (searchText tableName ["top_caption", "bot_caption"]) =
    some (.search tableName [("top_caption", 1), ("bot_caption", 2)]) :=
  parseSql_searchText isSqlName_tableName (by decide +kernel) (by decide +kernel)

/-- The columns of every statement are the table's, each at most once. -/
theorem sql_on (m : MemeStatement) : m.sql.On memeSchema := by
  cases m with
  | insert id texts => show insertSql.On memeSchema; decide
  | replace id texts => show replaceSql.On memeSchema; decide
  | remove id => show Sql.On memeSchema (.delete tableName [("id", 1)]); decide
  | setViews id views => show setViewsSql.On memeSchema; decide
  | byId id => show Sql.On memeSchema (.select tableName [("id", 1)]); decide
  | all => decide
  | search query =>
    show Sql.On memeSchema (.search tableName [("top_caption", 1), ("bot_caption", 2)])
    decide

/-- Every text means what it should and has its parameters bound; the values
have no part in it. -/
theorem statement_is (m : MemeStatement) : m.statement.Is memeSchema m.sql := by
  refine ⟨?_, m.sql_on, ?_⟩
  · cases m with
    | insert id texts => exact parse_insertText
    | replace id texts => exact parse_replaceText
    | remove id => exact parse_removeText
    | setViews id views => exact parse_setViewsText
    | byId id => exact parse_byIdText
    | all => exact parse_allText
    | search query => exact parse_searchText
  · cases m <;> exact fun _ hn => hn

/-- What a completed statement does to the records. -/
def apply : MemeStatement → Multiset MemeRecord → Multiset MemeRecord
  | .insert id texts, records => ⟨cStr id, texts.cStr, "0"⟩ ::ₘ records
  | .replace id texts, records =>
    records.map fun r => if r.id = cStr id then { r with texts := texts.cStr } else r
  | .remove id, records => records.filter fun r => r.id ≠ cStr id
  | .setViews id views, records =>
    records.map fun r => if r.id = cStr id then { r with views := cStr views } else r
  | _, records => records

/-- A completed insertion found no record with its id. -/
def Enabled : MemeStatement → Multiset MemeRecord → Prop
  | .insert id _, records => ∀ r ∈ records, r.id ≠ cStr id
  | _, _ => True

/-- The rows that a completed statement returns, in some order. -/
def Returns : MemeStatement → Multiset MemeRecord → List Row → Prop
  | .byId id, records, rows =>
    (rows : Multiset Row) = (records.filter fun r => r.id = cStr id).map MemeRecord.row
  | _, _, _ => True

end MemeStatement

/-! ## Their effects -/

theorem cell_id (r : MemeRecord) : memeSchema.cell r.row "id" = some r.id := rfl

theorem holds_id (value : Nat → Bytes) (n : Nat) (r : MemeRecord) :
    holds memeSchema value [("id", n)] r.row = decide (r.id = value n) := by
  unfold holds
  rw [List.all_cons, List.all_nil, Bool.and_true]
  show (memeSchema.cell r.row "id" == some (value n)) = _
  rw [cell_id, Bool.eq_iff_iff, beq_iff_eq, Option.some.injEq, decide_eq_true_iff]

variable {Db : Type} {L : Sqlite Db}

/-- An update of the rows with an id is one of the records with it. -/
theorem map_update (value : Nat → Bytes) (n : Nat) (set : List (Bytes × Nat))
    (f : MemeRecord → MemeRecord) (hf : ∀ r, assigned memeSchema value set r.row = (f r).row)
    (records : Multiset MemeRecord) :
    ((records.map MemeRecord.row).map fun row =>
        if holds memeSchema value [("id", n)] row then assigned memeSchema value set row else row) =
      (records.map fun r => if r.id = value n then f r else r).map MemeRecord.row := by
  rw [Multiset.map_map, Multiset.map_map]
  refine Multiset.map_congr rfl fun r _ => ?_
  simp only [Function.comp_apply, holds_id, decide_eq_true_iff]
  split_ifs
  · exact hf r
  · rfl

/-- **What the handler's statements do**: one that completes has its effect on
the records, and one that fails has none. -/
theorem exec_statement (hstd : L.Standard memeSchema) {db : Db} {records : Multiset MemeRecord}
    (h : Holds L db records) (m : MemeStatement) :
    ((L.exec db m.statement).1.done = true → m.Enabled records ∧
        m.Returns records (L.exec db m.statement).1.rows ∧
        Holds L (L.exec db m.statement).2 (m.apply records)) ∧
      ((L.exec db m.statement).1.done = false → Holds L (L.exec db m.statement).2 records) := by
  constructor
  · intro hdone
    have heff := hstd.completed db m.statement m.sql m.statement_is hdone
    unfold Holds at h ⊢
    rw [h] at heff
    cases m with
    | insert id texts =>
      obtain ⟨hfresh, hrows⟩ := heff
      refine ⟨fun r hr hid => ?_, trivial, ?_⟩
      · refine hfresh r.row (Multiset.mem_map_of_mem _ hr) ?_
        show memeSchema.cell r.row "id" = _
        rw [cell_id, hid]
        rfl
      · rw [hrows, MemeStatement.apply, Multiset.map_cons]
        rfl
    | replace id texts =>
      refine ⟨trivial, trivial, heff.trans ?_⟩
      exact map_update _ 4 _ (fun r => { r with texts := texts.cStr }) (fun r => rfl) records
    | remove id =>
      refine ⟨trivial, trivial, heff.trans ?_⟩
      rw [Multiset.filter_map]
      refine congrArg _ (Multiset.filter_congr fun r _ => ?_)
      simp only [Function.comp_apply, holds_id, decide_eq_true_iff]
      rfl
    | setViews id views =>
      refine ⟨trivial, trivial, heff.trans ?_⟩
      exact map_update _ 2 _ (fun r => { r with views := cStr views }) (fun r => rfl) records
    | byId id =>
      obtain ⟨hrows, hreply⟩ := heff
      refine ⟨trivial, hreply.trans ?_, hrows⟩
      rw [Multiset.filter_map]
      refine congrArg _ (Multiset.filter_congr fun r _ => ?_)
      simp only [Function.comp_apply, holds_id, decide_eq_true_iff]
      rfl
    | all => exact ⟨trivial, trivial, heff.1⟩
    | search query => exact ⟨trivial, trivial, heff.1⟩
  · intro hdone
    unfold Holds at h ⊢
    rw [(hstd.failed db m.statement m.sql m.statement_is hdone).1, h]

/-- On a reliable engine only an insertion can fail. -/
theorem exec_done (hrel : L.Reliable memeSchema) {db : Db} {records : Multiset MemeRecord}
    (h : Holds L db records) (m : MemeStatement) (hm : m.Enabled records) :
    (L.exec db m.statement).1.done = true := by
  refine hrel db m.statement m.sql m.statement_is ?_
  cases m with
  | insert id texts =>
    intro row hrow
    rw [h] at hrow
    obtain ⟨r, hr, rfl⟩ := Multiset.mem_map.mp hrow
    intro heq
    exact hm r hr (Option.some.inj ((cell_id r).symm.trans heq))
  | replace id texts => show memeSchema.key ∉ _; decide
  | setViews id views => show memeSchema.key ∉ _; decide
  | remove id => trivial
  | byId id => trivial
  | all => trivial
  | search query => trivial

end GittyUp
