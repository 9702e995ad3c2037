import GittyUp.Lib.Sql
import Mathlib.Data.Multiset.Filter

/-!
# A subset of SQL: meaning

A table of a fixed schema is a multiset of rows. `Effect` is what a statement
does to it when it completes. An engine is `Standard` when its statements have
this effect or fail without one, and `Reliable` when they fail on violated
constraints only; `reference` is an engine that is both.
-/

namespace Lib

/-- A row: its values, in the order of the columns. -/
abbrev Row := List Bytes

/-- A table of `TEXT NOT NULL` columns, one of them the primary key. -/
structure Schema where
  table : Bytes
  columns : List Bytes
  key : Bytes
  columns_nodup : columns.Nodup
  key_mem : key ∈ columns

/-- A prepared statement: its text, and the values bound to its parameters. -/
structure SqlStatement where
  text : Bytes
  bindings : List (Nat × Bytes)

/-- What stepping through a statement returns: the rows, and whether the last
result code was `SQLITE_DONE`. -/
structure SqlReply where
  rows : List Row
  done : Bool

/-- The value of the parameter `?n`. -/
def SqlStatement.value (st : SqlStatement) (n : Nat) : Bytes := (st.bindings.lookup n).getD []

namespace Sql

/-- The parameters of a statement. -/
def params : Sql → List Nat
  | .create _ _ => []
  | .insert _ _ ns => ns
  | .update _ set cond => set.map Prod.snd ++ cond.map Prod.snd
  | .delete _ cond => cond.map Prod.snd
  | .select _ cond => cond.map Prod.snd
  | .search _ likes => likes.map Prod.snd

/-- The statement reads or writes the table of the schema, and names columns of
it only; an insertion names every column once. -/
def On (S : Schema) : Sql → Prop
  | .create _ _ => False
  | .insert t cs ns =>
    t = S.table ∧ cs.Nodup ∧ ns.length = cs.length ∧ (∀ c ∈ S.columns, c ∈ cs) ∧
      ∀ c ∈ cs, c ∈ S.columns
  | .update t set cond =>
    t = S.table ∧ (set.map Prod.fst).Nodup ∧ (∀ p ∈ set, p.1 ∈ S.columns) ∧
      ∀ p ∈ cond, p.1 ∈ S.columns
  | .delete t cond => t = S.table ∧ ∀ p ∈ cond, p.1 ∈ S.columns
  | .select t cond => t = S.table ∧ ∀ p ∈ cond, p.1 ∈ S.columns
  | .search t likes => t = S.table ∧ ∀ p ∈ likes, p.1 ∈ S.columns

instance (S : Schema) : DecidablePred (On S) := fun ast => by
  cases ast <;> unfold On <;> infer_instance

end Sql

/-- The text of the statement is `ast`, on the table of the schema, and every
parameter is bound. -/
structure SqlStatement.Is (st : SqlStatement) (S : Schema) (ast : Sql) : Prop where
  parse : parseSql st.text = some ast
  on : ast.On S
  bound : ∀ n ∈ ast.params, n ∈ st.bindings.map Prod.fst

/-! ## The effect of a statement -/

section Effect

variable (S : Schema) (value : Nat → Bytes)

/-- The value of a row in a column. -/
def Schema.cell (row : Row) (c : Bytes) : Option Bytes := (S.columns.zip row).lookup c

/-- Every equation holds in the row. -/
def holds (cond : List (Bytes × Nat)) (row : Row) : Bool :=
  cond.all fun p => S.cell row p.1 == some (value p.2)

/-- The row with new values in some columns. -/
def assigned (set : List (Bytes × Nat)) (row : Row) : Row :=
  List.zipWith (fun c v => ((set.lookup c).map value).getD v) S.columns row

/-- The row that an insertion adds. -/
def insertedRow (columns : List Bytes) (params : List Nat) : Row :=
  S.columns.map fun c => (((columns.zip params).lookup c).map value).getD []

/-- An ASCII letter in lower case. -/
def lowerCase (c : Byte) : Byte := if 'A' ≤ c ∧ c ≤ 'Z' then c + 32 else c

/-- `text LIKE pattern`, for text of one-byte characters. -/
def like : Bytes → Bytes → Bool
  | [], text => text.isEmpty
  | p :: pattern, text =>
    if p = '%' then text.tails.any (like pattern)
    else
      match text with
      | [] => false
      | c :: text => (p == '_' || lowerCase p == lowerCase c) && like pattern text

/-- Some condition `c LIKE '%' || ?n || '%'` holds in the row. -/
def likesAny (likes : List (Bytes × Nat)) (row : Row) : Bool :=
  likes.any fun p =>
    (S.cell row p.1).any (like (lit "%" ++ value p.2 ++ lit "%"))

/-- What a completed statement does: the rows before and after, and the rows
returned. The order of the returned rows is open, and so is a search in text
that is not ASCII. -/
def Effect (rows rows' : Multiset Row) (reply : List Row) : Sql → Prop
  | .create _ _ => rows' = rows
  | .insert _ cs ns =>
    (∀ row ∈ rows, S.cell row S.key ≠ S.cell (insertedRow S value cs ns) S.key) ∧
      rows' = insertedRow S value cs ns ::ₘ rows
  | .update _ set cond =>
    rows' = rows.map fun row => if holds S value cond row then assigned S value set row else row
  | .delete _ cond => rows' = rows.filter fun row => ¬ holds S value cond row
  | .select _ cond =>
    rows' = rows ∧ (reply : Multiset Row) = rows.filter fun row => holds S value cond row
  | .search _ likes =>
    rows' = rows ∧ ∃ keep : Row → Bool, (reply : Multiset Row) = rows.filter (keep ·) ∧
      ((∀ row ∈ rows, ∀ v ∈ row, ∀ c ∈ v, c < 128) →
        ∀ row ∈ rows, keep row = likesAny S value likes row)

/-- The statement violates no constraint on these rows. -/
def Admissible (rows : Multiset Row) : Sql → Prop
  | .insert _ cs ns => ∀ row ∈ rows, S.cell row S.key ≠ S.cell (insertedRow S value cs ns) S.key
  | .update _ set _ => S.key ∉ set.map Prod.fst
  | _ => True

end Effect

/-! ## Engines -/

/-- A database engine with states `Db`: how it runs a statement, and the rows of
the table in a state. -/
structure Sqlite (Db : Type) where
  exec : Db → SqlStatement → SqlReply × Db
  rows : Db → Multiset Row

namespace Sqlite

variable {Db : Type}

/-- Statements are atomic: one that completes has its effect, and one that fails
leaves the table as it was. -/
structure Standard (L : Sqlite Db) (S : Schema) : Prop where
  completed : ∀ db st ast, st.Is S ast → (L.exec db st).1.done = true →
    Effect S st.value (L.rows db) (L.rows (L.exec db st).2) (L.exec db st).1.rows ast
  failed : ∀ db st ast, st.Is S ast → (L.exec db st).1.done = false →
    L.rows (L.exec db st).2 = L.rows db ∧ ∀ row ∈ (L.exec db st).1.rows, row ∈ L.rows db

/-- Statements fail only when they violate a constraint. -/
def Reliable (L : Sqlite Db) (S : Schema) : Prop :=
  ∀ db st ast, st.Is S ast → Admissible S st.value (L.rows db) ast →
    (L.exec db st).1.done = true

end Sqlite

/-! ## A reference engine -/

section Reference

variable (S : Schema) (value : Nat → Bytes)

/-- Run a statement on a list of rows. -/
def execute (rows : List Row) : Sql → SqlReply × List Row
  | .create _ _ => (⟨[], true⟩, rows)
  | .insert _ cs ns =>
    if ∀ row ∈ rows, S.cell row S.key ≠ S.cell (insertedRow S value cs ns) S.key then
      (⟨[], true⟩, insertedRow S value cs ns :: rows)
    else (⟨[], false⟩, rows)
  | .update _ set cond =>
    if S.key ∉ set.map Prod.fst then
      (⟨[], true⟩,
        rows.map fun row => if holds S value cond row then assigned S value set row else row)
    else (⟨[], false⟩, rows)
  | .delete _ cond => (⟨[], true⟩, rows.filter fun row => ¬ holds S value cond row)
  | .select _ cond => (⟨rows.filter fun row => holds S value cond row, true⟩, rows)
  | .search _ likes => (⟨rows.filter fun row => likesAny S value likes row, true⟩, rows)

instance (st : SqlStatement) (ast : Sql) :
    Decidable (ast.On S ∧ ∀ n ∈ ast.params, n ∈ st.bindings.map Prod.fst) :=
  inferInstanceAs (Decidable (_ ∧ _))

/-- An engine whose states are lists of rows. -/
def reference : Sqlite (List Row) where
  rows db := db
  exec db st :=
    match parseSql st.text with
    | none => (⟨[], false⟩, db)
    | some ast =>
      if ast.On S ∧ ∀ n ∈ ast.params, n ∈ st.bindings.map Prod.fst then
        execute S st.value db ast
      else (⟨[], false⟩, db)

theorem reference_exec {st : SqlStatement} {ast : Sql} (h : st.Is S ast) (db : List Row) :
    (reference S).exec db st = execute S st.value db ast := by
  simp only [reference, h.parse]
  rw [if_pos ⟨h.on, h.bound⟩]

theorem reference_standard : (reference S).Standard S := by
  constructor
  · intro db st ast h hdone
    rw [reference_exec S h] at hdone ⊢
    cases ast with
    | create t cs => rfl
    | insert t cs ns =>
      simp only [execute] at hdone ⊢
      split_ifs at hdone ⊢ with hkey
      · exact ⟨hkey, rfl⟩
    | update t set cond =>
      simp only [execute] at hdone ⊢
      split_ifs at hdone ⊢
      · rfl
    | delete t cond => rfl
    | select t cond => exact ⟨rfl, by simp [execute, reference]⟩
    | search t likes =>
      exact ⟨rfl, likesAny S st.value likes, by simp [execute, reference], fun _ _ _ => rfl⟩
  · intro db st ast h hdone
    rw [reference_exec S h] at hdone ⊢
    cases ast with
    | create t cs => contradiction
    | insert t cs ns =>
      simp only [execute] at hdone ⊢
      split_ifs at hdone ⊢
      exact ⟨rfl, by simp⟩
    | update t set cond =>
      simp only [execute] at hdone ⊢
      split_ifs at hdone ⊢
      exact ⟨rfl, by simp⟩
    | delete t cond => contradiction
    | select t cond => contradiction
    | search t likes => contradiction

theorem reference_reliable : (reference S).Reliable S := by
  intro db st ast h hadm
  rw [reference_exec S h]
  cases ast with
  | insert t cs ns => simp only [execute, if_pos (show ∀ row ∈ db, _ from hadm)]
  | update t set cond => simp only [execute, if_pos (show S.key ∉ _ from hadm)]
  | create t cs => rfl
  | delete t cond => rfl
  | select t cond => rfl
  | search t likes => rfl

end Reference

end Lib
