import GittyUp.Lib.SqlMeaning
import GittyUp.Lib.UnorderedMap

/-!
# Statements as operations on records

A record is what a row says by column name. `Sql.operation` is what a statement
does to the records of its table, in these terms, with no schema; the effect
that a statement has on rows is its operation on their records
(`effect_operation`).
-/

namespace Lib

/-- The values of a record by column name; `none` is no value. -/
abbrev Record := Bytes → Option Bytes

/-- What a statement does to the records of a table. -/
inductive TableOperation where
  | insert (record : Record)
  | update (assign : Record → Record) (cond : Record → Bool)
  | delete (cond : Record → Bool)
  | select (cond : Record → Bool)

namespace TableOperation

/-- The records afterwards. -/
def after : TableOperation → Multiset Record → Multiset Record
  | .insert record, records => record ::ₘ records
  | .update assign cond, records => records.map fun r => if cond r then assign r else r
  | .delete cond, records => records.filter fun r => ¬ cond r
  | .select _, records => records

/-- The records returned. -/
def returned : TableOperation → Multiset Record → Multiset Record
  | .select cond, records => records.filter (cond ·)
  | _, _ => 0

end TableOperation

/-! ## Values by column name -/

/-- Values for columns. -/
abbrev ColumnValues := List (Bytes × Bytes)

namespace ColumnValues

/-- The record of these values. -/
def record (values : ColumnValues) : Record := fun c => values.lookup c

/-- The record with these values in place of its own. -/
def assign (values : ColumnValues) (r : Record) : Record := fun c => (values.lookup c).or (r c)

/-- The record has these values. -/
def equal (values : ColumnValues) (r : Record) : Bool := values.all fun p => r p.1 == some p.2

/-- Some value of the record is `LIKE` the one for its column between `%` signs. -/
def someLike (like : Bytes → Bytes → Bool) (values : ColumnValues) (r : Record) : Bool :=
  values.any fun p => (r p.1).any (like (lit "%" ++ p.2 ++ lit "%"))

variable {values : ColumnValues}

theorem record_of_mem (h : (values.map Prod.fst).Nodup) {p : Bytes × Bytes} (hp : p ∈ values) :
    values.record p.1 = some p.2 := lookup_of_mem h hp

theorem record_of_not_mem {c : Bytes} (h : c ∉ values.map Prod.fst) : values.record c = none :=
  lookup_eq_none_of_not_mem h

theorem assign_of_mem (h : (values.map Prod.fst).Nodup) {p : Bytes × Bytes} (hp : p ∈ values)
    (r : Record) : values.assign r p.1 = some p.2 := by
  rw [assign, lookup_of_mem h hp]
  rfl

theorem assign_of_not_mem {c : Bytes} (h : c ∉ values.map Prod.fst) (r : Record) :
    values.assign r c = r c := by
  rw [assign, lookup_eq_none_of_not_mem h]
  rfl

theorem equal_iff (r : Record) : values.equal r ↔ ∀ p ∈ values, r p.1 = some p.2 := by
  rw [equal, List.all_eq_true]
  exact forall₂_congr fun p _ => beq_iff_eq

theorem someLike_iff (like : Bytes → Bytes → Bool) (r : Record) : values.someLike like r ↔
    ∃ p ∈ values, ∃ v, r p.1 = some v ∧ like (lit "%" ++ p.2 ++ lit "%") v := by
  rw [someLike, List.any_eq_true]
  refine exists_congr fun p => and_congr_right fun _ => ?_
  rw [Option.any_eq_true]

end ColumnValues

/-! ## The operation of a statement -/

/-- The values that the parameters of columns stand for. -/
def given (value : Nat → Bytes) (params : List (Bytes × Nat)) : ColumnValues :=
  params.map fun p => (p.1, value p.2)

/-- The table of a statement, and what the statement does to its records when the
parameters have these values. `like` is the operator `LIKE`, the pattern first. -/
def Sql.operation (like : Bytes → Bytes → Bool) (value : Nat → Bytes) :
    Sql → Option (Bytes × TableOperation)
  | .create _ _ => none
  | .insert t cs ns =>
    if cs.Nodup ∧ ns.length = cs.length then some (t, .insert (given value (cs.zip ns)).record)
    else none
  | .update t set cond =>
    if (set.map Prod.fst).Nodup then
      some (t, .update (given value set).assign (given value cond).equal)
    else none
  | .delete t cond => some (t, .delete (given value cond).equal)
  | .select t cond => some (t, .select (given value cond).equal)
  | .search t likes => some (t, .select ((given value likes).someLike like))

/-! ## Rows and their records -/

section Effect

variable {S : Schema} {value : Nat → Bytes}

theorem lookup_given (params : List (Bytes × Nat)) (c : Bytes) :
    (given value params).lookup c = (params.lookup c).map value := by
  induction params with
  | nil => rfl
  | cons p params ih =>
    rw [given, List.map_cons, List.lookup_cons, List.lookup_cons]
    cases c == p.1 with
    | true => rfl
    | false => exact ih

theorem lookup_zip_zipWith (f : Bytes → Bytes → Bytes) (columns : List Bytes) (row : Row)
    (c : Bytes) : (columns.zip (List.zipWith f columns row)).lookup c =
      ((columns.zip row).lookup c).map (f c) := by
  induction columns generalizing row with
  | nil => rfl
  | cons column columns ih =>
    cases row with
    | nil => rfl
    | cons v row =>
      rw [List.zipWith_cons_cons, List.zip_cons_cons, List.zip_cons_cons, List.lookup_cons,
        List.lookup_cons]
      cases hc : c == column with
      | true => rw [beq_iff_eq.mp hc]; rfl
      | false => exact ih row

theorem lookup_zip_map (f : Bytes → Bytes) {columns : List Bytes} {c : Bytes} (h : c ∈ columns) :
    (columns.zip (columns.map f)).lookup c = some (f c) := by
  induction columns with
  | nil => contradiction
  | cons column columns ih =>
    rw [List.map_cons, List.zip_cons_cons, List.lookup_cons]
    cases hc : c == column with
    | true => rw [beq_iff_eq.mp hc]
    | false =>
      exact ih ((List.mem_cons.mp h).resolve_left (ne_of_beq_false hc))

/-- A row has no value in what is no column. -/
theorem cell_of_not_mem {c : Bytes} (h : c ∉ S.columns) (row : Row) : S.cell row c = none :=
  lookup_eq_none_of_not_mem fun hc => h <| by
    obtain ⟨p, hp, rfl⟩ := List.mem_map.mp hc
    exact (List.of_mem_zip hp).1

theorem holds_eq_equal (cond : List (Bytes × Nat)) (row : Row) :
    holds S value cond row = (given value cond).equal (S.cell row) := by
  rw [holds, given, ColumnValues.equal, List.all_map]
  rfl

theorem likesAny_eq_someLike (likes : List (Bytes × Nat)) (row : Row) :
    likesAny S value likes row = (given value likes).someLike like (S.cell row) := by
  rw [likesAny, given, ColumnValues.someLike, List.any_map]
  rfl

/-- A row has a value in every column. -/
theorem exists_cell {c : Bytes} (h : c ∈ S.columns) {row : Row}
    (hrow : row.length = S.columns.length) : ∃ v ∈ row, S.cell row c = some v := by
  have hkeys : c ∈ (S.columns.zip row).map Prod.fst := by
    rwa [List.map_fst_zip (le_of_eq hrow.symm)]
  obtain ⟨p, hp, rfl⟩ := List.mem_map.mp hkeys
  obtain ⟨v, hv⟩ := Option.isSome_iff_exists.mp
    (List.lookup_isSome_iff.mpr ⟨p, hp, beq_self_eq_true p.1⟩)
  obtain ⟨front, back, hzip, -⟩ := List.lookup_eq_some_iff.mp hv
  have hmem : (p.1, v) ∈ S.columns.zip row := hzip ▸ List.mem_append_right _ List.mem_cons_self
  exact ⟨v, (List.of_mem_zip hmem).2, hv⟩

theorem cell_assigned {set : List (Bytes × Nat)} (hset : ∀ p ∈ set, p.1 ∈ S.columns) {row : Row}
    (hrow : row.length = S.columns.length) :
    S.cell (assigned S value set row) = (given value set).assign (S.cell row) := by
  funext c
  rw [ColumnValues.assign, lookup_given, Schema.cell, assigned, lookup_zip_zipWith]
  show ((S.cell row c).map _) = _
  by_cases hc : c ∈ S.columns
  · obtain ⟨v, -, hv⟩ := exists_cell hc hrow
    rw [hv]
    cases set.lookup c <;> rfl
  · have hno : set.lookup c = none := lookup_eq_none_of_not_mem fun h => by
      obtain ⟨p, hp, rfl⟩ := List.mem_map.mp h
      exact hc (hset p hp)
    rw [cell_of_not_mem hc, hno]
    rfl

theorem cell_insertedRow {columns : List Bytes} {params : List Nat}
    (hlength : params.length = columns.length) (hall : ∀ c ∈ S.columns, c ∈ columns)
    (hmem : ∀ c ∈ columns, c ∈ S.columns) :
    S.cell (insertedRow S value columns params) = (given value (columns.zip params)).record := by
  have hkeys : (columns.zip params).map Prod.fst = columns :=
    List.map_fst_zip (le_of_eq hlength.symm)
  funext c
  rw [ColumnValues.record, lookup_given]
  by_cases hc : c ∈ S.columns
  · obtain ⟨p, hp, rfl⟩ := List.mem_map.mp (hkeys ▸ hall c hc)
    obtain ⟨n, hn⟩ := Option.isSome_iff_exists.mp
      (List.lookup_isSome_iff.mpr ⟨p, hp, beq_self_eq_true p.1⟩)
    rw [Schema.cell, insertedRow, lookup_zip_map _ hc, hn]
    rfl
  · have hno : (columns.zip params).lookup c = none :=
      lookup_eq_none_of_not_mem fun h => hc (hmem c (hkeys ▸ h))
    rw [cell_of_not_mem hc, hno]
    rfl

/-- The records of the rows that meet a condition. -/
theorem map_cell_filter {keep : Row → Prop} [DecidablePred keep] {cond : Record → Prop}
    [DecidablePred cond] {rows : Multiset Row} (h : ∀ row ∈ rows, keep row ↔ cond (S.cell row)) :
    (rows.filter keep).map S.cell = (rows.map S.cell).filter cond := by
  rw [Multiset.filter_map]
  exact congrArg _ (Multiset.filter_congr h)

/-- **The effect of a statement on rows is its operation on their records.** -/
theorem effect_operation {ast : Sql} (hon : ast.On S) {rows rows' : Multiset Row} {reply : List Row}
    (hrows : ∀ row ∈ rows, row.length = S.columns.length)
    (hascii : ∀ row ∈ rows, ∀ v ∈ row, ∀ c ∈ v, c < 128)
    (heffect : Effect S value rows rows' reply ast) :
    ∃ op, ast.operation like value = some (S.table, op) ∧
      rows'.map S.cell = op.after (rows.map S.cell) ∧
      ∀ cond, op = .select cond →
        (reply : Multiset Row).map S.cell = op.returned (rows.map S.cell) := by
  cases ast with
  | create t columns => exact hon.elim
  | insert t columns params =>
    obtain ⟨rfl, hnodup, hlength, hall, hmem⟩ := hon
    refine ⟨_, if_pos ⟨hnodup, hlength⟩, ?_, fun cond h => by cases h⟩
    rw [heffect.2, Multiset.map_cons, cell_insertedRow hlength hall hmem]
    rfl
  | update t set cond =>
    obtain ⟨rfl, hnodup, hset, -⟩ := hon
    refine ⟨_, if_pos hnodup, ?_, fun cond h => by cases h⟩
    rw [show rows' = _ from heffect, Multiset.map_map]
    refine (Multiset.map_congr rfl fun row hrow => ?_).trans (Multiset.map_map _ _ _).symm
    show S.cell (if _ then _ else _) = if _ then _ else _
    rw [holds_eq_equal, apply_ite S.cell, cell_assigned hset (hrows row hrow)]
  | delete t cond =>
    obtain ⟨rfl, -⟩ := hon
    refine ⟨_, rfl, ?_, fun cond h => by cases h⟩
    rw [show rows' = _ from heffect]
    exact map_cell_filter fun row _ => by rw [holds_eq_equal]
  | select t cond =>
    obtain ⟨rfl, -⟩ := hon
    refine ⟨_, rfl, ?_, fun _ _ => ?_⟩
    · rw [heffect.1]
      rfl
    · rw [heffect.2]
      exact map_cell_filter fun row _ => by rw [holds_eq_equal]
  | search t likes =>
    obtain ⟨rfl, -⟩ := hon
    obtain ⟨hrows', keep, hreply, hkeep⟩ := heffect
    refine ⟨_, rfl, ?_, fun _ _ => ?_⟩
    · rw [hrows']
      rfl
    · rw [hreply]
      exact map_cell_filter fun row hrow => by rw [hkeep hascii row hrow, likesAny_eq_someLike]

/-- A standard engine does to the records what a completed statement says. -/
theorem Sqlite.Standard.exec_operation {Db : Type} {L : Sqlite Db} (hstd : L.Standard S) {db : Db}
    {st : SqlStatement} {ast : Sql} (hst : st.Is S ast) (hdone : (L.exec db st).1.done = true)
    (hrows : ∀ row ∈ L.rows db, row.length = S.columns.length)
    (hascii : ∀ row ∈ L.rows db, ∀ v ∈ row, ∀ c ∈ v, c < 128) :
    ∃ op, ast.operation like st.value = some (S.table, op) ∧
      (L.rows (L.exec db st).2).map S.cell = op.after ((L.rows db).map S.cell) ∧
      ∀ cond, op = .select cond →
        ((L.exec db st).1.rows : Multiset Row).map S.cell =
          op.returned ((L.rows db).map S.cell) :=
  effect_operation hst.on hrows hascii (hstd.completed db st ast hst hdone)

end Effect

end Lib
