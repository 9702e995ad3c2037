import GittyUp.Lib.SqlRecords
import GittyUp.Meme.SqlText

/-!
# What the statements mean (`sql_lib.cc`)

The texts number their parameters from 1 on, and the values are bound in the
same order. The statement that a function of the `sql_manager` executes therefore
does to the records of its table what its `query_params` say.
-/

namespace GittyUp

open Lib

/-! ## The bindings -/

/-- The binding loops count as the text loops do. -/
theorem bindText_eq_zipIdx (i : Nat) (params : QueryParams) :
    bindText i params = (params.zipIdx i).map fun q => (q.2, cStr q.1.2) := by
  induction params generalizing i with
  | nil => rfl
  | cons p params ih => rw [bindText, ih, List.zipIdx_cons, List.map_cons]

/-- Every parameter is bound once. -/
theorem map_fst_bindText (i : Nat) (params : QueryParams) :
    (bindText i params).map Prod.fst = List.range' i params.length := by
  rw [bindText_eq_zipIdx, List.map_map]
  exact List.zipIdx_map_snd i params

/-- The conditions of an update are bound behind its assignments. -/
theorem bindText_append (i : Nat) (params params' : QueryParams) :
    bindText i (params ++ params') =
      bindText i params ++ bindText (i + params.length) params' := by
  rw [bindText_eq_zipIdx, bindText_eq_zipIdx, bindText_eq_zipIdx, List.zipIdx_append,
    List.map_append]

/-- What a statement can be built from: names that are identifiers, and values
that are whole as C strings. -/
structure QueryParams.Proper (params : QueryParams) : Prop where
  names : ∀ name ∈ params.map Prod.fst, IsSqlName name
  values : ∀ p ∈ params, NulFree p.2

theorem QueryParams.Proper.append {params params' : QueryParams} (h : params.Proper)
    (h' : params'.Proper) : QueryParams.Proper (params ++ params') := by
  constructor
  · intro name hname
    rw [List.map_append] at hname
    exact (List.mem_append.mp hname).elim (h.names name) (h'.names name)
  · intro p hp
    exact (List.mem_append.mp hp).elim (h.values p) (h'.values p)

/-- The parameter of a selector stands for its value. -/
theorem value_bindText {text : Bytes} {params : QueryParams} (h : params.Proper)
    {q : (Bytes × Bytes) × Nat} (hq : q ∈ params.zipIdx 1) :
    SqlStatement.value ⟨text, bindText 1 params⟩ q.2 = q.1.2 := by
  have hmem : (q.2, cStr q.1.2) ∈ bindText 1 params := by
    rw [bindText_eq_zipIdx]
    exact List.mem_map_of_mem hq
  have hkeys : ((bindText 1 params).map Prod.fst).Nodup := by
    rw [map_fst_bindText]
    exact List.nodup_range' 1 Nat.one_pos
  have hlookup := lookup_of_mem hkeys hmem
  rw [SqlStatement.value, hlookup]
  exact cStr_of_nulFree (h.values q.1 (List.fst_mem_of_mem_zipIdx hq))

/-- The numbers of the parameters. -/
theorem map_snd_zipIdx (i : Nat) (params : QueryParams) :
    ((params.map Prod.fst).zipIdx i).map Prod.snd = List.range' i params.length := by
  rw [List.zipIdx_map_snd, List.length_map]

/-- Numbered names with the values of their numbers are the selectors again. -/
theorem given_zipIdx {value : Nat → Bytes} {i : Nat} {params : QueryParams}
    (h : ∀ q ∈ params.zipIdx i, value q.2 = q.1.2) :
    given value ((params.map Prod.fst).zipIdx i) = params := by
  rw [given, List.zipIdx_map, List.map_map]
  refine (List.map_congr_left fun q hq => ?_).trans (List.zipIdx_map_fst i params)
  exact Prod.ext rfl (h q hq)

theorem given_bindText {text : Bytes} {params : QueryParams} (h : params.Proper) :
    given (SqlStatement.value ⟨text, bindText 1 params⟩) ((params.map Prod.fst).zipIdx 1) =
      params :=
  given_zipIdx fun _ hq => value_bindText h hq

/-! ## Meanings -/

/-- The statement is an operation on a table: its placeholders are `?1` to `?n`,
each of them is bound once, and with these values its text says the operation. -/
def Means (like : Bytes → Bytes → Bool) (st : SqlStatement) (n : Nat) (table : Bytes)
    (op : TableOperation) : Prop :=
  ∃ ast, parseSql st.text = some ast ∧ ast.params = List.range' 1 n ∧
    st.bindings.map Prod.fst = List.range' 1 n ∧ ast.operation like st.value = some (table, op)

section Meanings

variable {like : Bytes → Bytes → Bool} {table : Bytes} {params : QueryParams}

theorem insertStatement_means (htable : IsSqlName table) (h : params.Proper) (hne : params ≠ [])
    (hnodup : (params.map Prod.fst).Nodup) :
    Means like (insertStatement table params) params.length table
      (.insert (ColumnValues.record params)) := by
  have hlength : (params.map Prod.fst).length = params.length := List.length_map Prod.fst
  refine ⟨_, parseSql_insertText htable h.names (fun hnil => hne (List.map_eq_nil_iff.mp hnil)),
    congrArg (List.range' 1 ·) hlength, map_fst_bindText 1 params, ?_⟩
  refine (if_pos ⟨hnodup, List.length_range'⟩).trans ?_
  rw [← List.zipIdx_eq_zip_range', insertStatement, given_bindText h]

theorem deleteStatement_means (htable : IsSqlName table) (h : params.Proper) :
    Means like (deleteStatement table params) params.length table
      (.delete (ColumnValues.equal params)) := by
  refine ⟨_, parseSql_deleteText htable h.names, map_snd_zipIdx 1 params,
    map_fst_bindText 1 params, ?_⟩
  rw [Sql.operation, deleteStatement, given_bindText h]

theorem selectStatement_means (htable : IsSqlName table) (h : params.Proper) :
    Means like (selectStatement table params) params.length table
      (.select (ColumnValues.equal params)) := by
  refine ⟨_, parseSql_selectText htable h.names, map_snd_zipIdx 1 params,
    map_fst_bindText 1 params, ?_⟩
  rw [Sql.operation, selectStatement, given_bindText h]

theorem searchStatement_means (htable : IsSqlName table) (h : params.Proper) (hne : params ≠ []) :
    Means like (searchStatement table params) params.length table
      (.select (ColumnValues.someLike like params)) := by
  have hnames : params.map Prod.fst ≠ [] := fun hnil => hne (List.map_eq_nil_iff.mp hnil)
  refine ⟨_, parseSql_searchText htable h.names hnames, map_snd_zipIdx 1 params,
    map_fst_bindText 1 params, ?_⟩
  rw [Sql.operation, searchStatement, given_bindText h]

/-- One counter numbers the two lists of an update. -/
theorem updateStatement_means {whereParams : QueryParams} (htable : IsSqlName table)
    (h : params.Proper) (hwhere : whereParams.Proper) (hne : params ≠ [])
    (hnodup : (params.map Prod.fst).Nodup) :
    Means like (updateStatement table params whereParams) (params.length + whereParams.length)
      table (.update (ColumnValues.assign params) (ColumnValues.equal whereParams)) := by
  have hnames : params.map Prod.fst ≠ [] := fun hnil => hne (List.map_eq_nil_iff.mp hnil)
  have hall := h.append hwhere
  have hbind : bindText 1 params ++ bindText (params.length + 1) whereParams =
      bindText 1 (params ++ whereParams) := by
    rw [bindText_append, Nat.add_comm]
  have hzip : (params ++ whereParams).zipIdx 1 =
      params.zipIdx 1 ++ whereParams.zipIdx (params.length + 1) := by
    rw [List.zipIdx_append, Nat.add_comm]
  have hset : given (updateStatement table params whereParams).value
      ((params.map Prod.fst).zipIdx 1) = params := by
    refine given_zipIdx fun q hq => ?_
    rw [updateStatement, hbind]
    exact value_bindText hall (hzip ▸ List.mem_append_left _ hq)
  have hcond : given (updateStatement table params whereParams).value
      ((whereParams.map Prod.fst).zipIdx (params.length + 1)) = whereParams := by
    refine given_zipIdx fun q hq => ?_
    rw [updateStatement, hbind]
    exact value_bindText hall (hzip ▸ List.mem_append_right _ hq)
  refine ⟨_, parseSql_updateText htable h.names hnames hwhere.names, ?_, ?_, ?_⟩
  · rw [Sql.params, map_snd_zipIdx, List.length_map, map_snd_zipIdx, Nat.add_comm params.length 1,
      List.range'_append_1]
  · rw [updateStatement, hbind, map_fst_bindText, List.length_append]
  · rw [Sql.operation, List.length_map, hset, hcond]
    refine if_pos ?_
    rwa [List.zipIdx_map_fst]

end Meanings

/-! ## What the functions do -/

section Functions

variable {ε α : Type} {like : Bytes → Bytes → Bool} {table : Bytes} {params : QueryParams}

/-- The function executes one statement, and that is the operation on the table. -/
def Performs (like : Bytes → Bytes → Bool) (p : Prog ε SqlStatement SqlReply α) (n : Nat)
    (table : Bytes) (op : TableOperation) : Prop :=
  ∃ st, p.IssuesOnce st ∧ Means like st n table op

/-- Both calls execute one statement, and prepare the same text for it. -/
def SameText (p p' : Prog ε SqlStatement SqlReply α) : Prop :=
  ∃ st st', p.IssuesOnce st ∧ p'.IssuesOnce st' ∧ st.text = st'.text

theorem stepDone_issuesOnce (st : SqlStatement) :
    (stepDone st : Prog ε SqlStatement SqlReply Bool).IssuesOnce st := ⟨_, rfl⟩

theorem stepRows_issuesOnce (st : SqlStatement) :
    (stepRows st : Prog ε SqlStatement SqlReply (List Row)).IssuesOnce st := ⟨_, rfl⟩

/-- Calls of the same function with the same names prepare the same text. -/
def SameTexts (ε : Type) (table : Bytes) (params params' whereParams whereParams' : QueryParams) :
    Prop :=
  SameText (insertRecord table params : Prog ε _ _ _) (insertRecord table params') ∧
    SameText (updateRecord table params whereParams : Prog ε _ _ _)
      (updateRecord table params' whereParams') ∧
    SameText (deleteRecord table params : Prog ε _ _ _) (deleteRecord table params') ∧
    SameText (selectRecord table params : Prog ε _ _ _) (selectRecord table params') ∧
    SameText (searchRecord table params : Prog ε _ _ _) (searchRecord table params')

theorem sameTexts {params' whereParams whereParams' : QueryParams}
    (h : params.map Prod.fst = params'.map Prod.fst)
    (hwhere : whereParams.map Prod.fst = whereParams'.map Prod.fst) :
    SameTexts ε table params params' whereParams whereParams' := by
  refine ⟨?_, ?_, ?_, ?_, ?_⟩
  · exact ⟨_, _, stepDone_issuesOnce _, stepDone_issuesOnce _, congrArg (insertText table) h⟩
  · exact ⟨_, _, stepDone_issuesOnce _, stepDone_issuesOnce _,
      congrArg₂ (updateText table) h hwhere⟩
  · exact ⟨_, _, stepDone_issuesOnce _, stepDone_issuesOnce _, congrArg (deleteText table) h⟩
  · exact ⟨_, _, stepRows_issuesOnce _, stepRows_issuesOnce _, congrArg (selectText table) h⟩
  · exact ⟨_, _, stepRows_issuesOnce _, stepRows_issuesOnce _, congrArg (searchText table) h⟩

/-- **The statements mean what their parameters say.** The values have no part in
the texts that are prepared. Each parameter is bound once, and with these values the
statement of a function inserts the record that has them, sets them in exactly the
records that have the values of the condition, deletes or selects exactly the records
that have them all, or selects exactly those with one that is `LIKE` its value between
`%` signs. -/
theorem statements_mean (ε : Type) (like : Bytes → Bytes → Bool) (htable : IsSqlName table)
    (h : params.Proper) {whereParams : QueryParams} (hwhere : whereParams.Proper) :
    (∀ params' whereParams' : QueryParams, params.map Prod.fst = params'.map Prod.fst →
      whereParams.map Prod.fst = whereParams'.map Prod.fst →
        SameTexts ε table params params' whereParams whereParams') ∧
    (params ≠ [] → (params.map Prod.fst).Nodup →
      (∃ record, Performs like (insertRecord table params : Prog ε _ _ _) params.length table
          (.insert record) ∧
        (∀ p ∈ params, record p.1 = some p.2) ∧
          ∀ c, c ∉ params.map Prod.fst → record c = none) ∧
      ∃ assign cond, Performs like (updateRecord table params whereParams : Prog ε _ _ _)
          (params.length + whereParams.length) table (.update assign cond) ∧
        (∀ r, cond r ↔ ∀ p ∈ whereParams, r p.1 = some p.2) ∧
        ∀ r, (∀ p ∈ params, assign r p.1 = some p.2) ∧
          ∀ c, c ∉ params.map Prod.fst → assign r c = r c) ∧
    (∃ cond, Performs like (deleteRecord table params : Prog ε _ _ _) params.length table
          (.delete cond) ∧
        Performs like (selectRecord table params : Prog ε _ _ _) params.length table
          (.select cond) ∧
        ∀ r, cond r ↔ ∀ p ∈ params, r p.1 = some p.2) ∧
    (params ≠ [] →
      ∃ cond, Performs like (searchRecord table params : Prog ε _ _ _) params.length table
          (.select cond) ∧
        ∀ r, cond r ↔
          ∃ p ∈ params, ∃ v, r p.1 = some v ∧ like (lit "%" ++ p.2 ++ lit "%") v) := by
  refine ⟨fun _ _ => sameTexts, fun hne hnodup => ⟨?_, ?_⟩, ?_, fun hne => ?_⟩
  · exact ⟨_, ⟨_, stepDone_issuesOnce _, insertStatement_means htable h hne hnodup⟩,
      fun p => ColumnValues.record_of_mem hnodup, fun c => ColumnValues.record_of_not_mem⟩
  · exact ⟨_, _, ⟨_, stepDone_issuesOnce _, updateStatement_means htable h hwhere hne hnodup⟩,
      ColumnValues.equal_iff, fun r => ⟨fun p hp => ColumnValues.assign_of_mem hnodup hp r,
        fun c hc => ColumnValues.assign_of_not_mem hc r⟩⟩
  · exact ⟨_, ⟨_, stepDone_issuesOnce _, deleteStatement_means htable h⟩,
      ⟨_, stepRows_issuesOnce _, selectStatement_means htable h⟩, ColumnValues.equal_iff⟩
  · exact ⟨_, ⟨_, stepRows_issuesOnce _, searchStatement_means htable h hne⟩,
      ColumnValues.someLike_iff like⟩

end Functions

/-- Text that looks like SQL is a value as any other. -/
theorem statements_mean_quoted :
    SameText (selectRecord "memes" [("caption", "111 OR 1=1; DROP TABLE memes")] :
        Prog Empty _ _ _) (selectRecord "memes" [("caption", "111")]) ∧
      ∃ assign cond, Performs Lib.like
          (updateRecord "memes" [("caption", "111 OR 1=1; DROP TABLE memes")] [("id", "7")] :
            Prog Empty _ _ _) 2 "memes" (.update assign cond) ∧
        (∀ r : Record, cond r ↔ r "id" = some (lit "7")) ∧
        ∀ r, assign r "caption" = some (lit "111 OR 1=1; DROP TABLE memes") ∧
          assign r "id" = r "id" := by
  have hparams : QueryParams.Proper [("caption", "111 OR 1=1; DROP TABLE memes")] :=
    ⟨by decide +kernel, by decide +kernel⟩
  have hwhere : QueryParams.Proper [("id", "7")] := ⟨by decide +kernel, by decide +kernel⟩
  have htable : IsSqlName "memes" := by decide +kernel
  obtain ⟨htexts, hchanges, -, -⟩ := statements_mean Empty Lib.like htable hparams hwhere
  obtain ⟨-, assign, cond, hmeans, hcond, hassign⟩ := hchanges (by decide) (by decide)
  refine ⟨(htexts [("caption", "111")] [("id", "7")] rfl rfl).2.2.2.1, assign, cond, hmeans,
    fun r => (hcond r).trans List.forall_mem_singleton, fun r => ⟨?_, ?_⟩⟩
  · exact (hassign r).1 _ (List.mem_singleton_self _)
  · exact (hassign r).2 _ (by decide)

end GittyUp
