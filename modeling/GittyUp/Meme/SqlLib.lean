import GittyUp.Lib.Prog
import GittyUp.Lib.SqlMeaning

/-!
# The SQL layer (`sql_lib.cc`)

Every function builds the text of a statement from the names in its
`query_params`, binds the values to the numbered parameters as C strings, and
steps through the statement. A call to SQLite is a query of the program.
-/

namespace GittyUp

open Lib

/-- `query_params::selectors`. -/
abbrev QueryParams := List (Bytes × Bytes)

variable {ε : Type}

/-! ## Statement texts -/

/-- The loops that write one piece of text for every selector: `item i name` for
the one with the parameter `?i`, `sep` between two pieces, `last` at the end. -/
def selectorText (item : Nat → Bytes → Bytes) (sep last : Bytes) : Nat → List Bytes → Bytes
  | _, [] => []
  | i, [name] => item i name ++ last
  | i, name :: names => item i name ++ sep ++ selectorText item sep last (i + 1) names

/-- `name= ?i`. -/
def equationText (i : Nat) (name : Bytes) : Bytes := name ++ lit "= ?" ++ decimal i

/-- `name LIKE '%' || ?i|| '%'`. -/
def likeText (i : Nat) (name : Bytes) : Bytes :=
  name ++ lit " LIKE '%' || ?" ++ decimal i ++ lit "|| '%'"

/-- The conditions of a statement, after the given introduction. -/
def whereText (intro : Bytes) (item : Nat → Bytes → Bytes) (sep : Bytes) (i : Nat)
    (names : List Bytes) : Bytes :=
  if names = [] then [] else intro ++ selectorText item sep ";" i names

def insertText (table : Bytes) (names : List Bytes) : Bytes :=
  lit "INSERT INTO " ++ table ++ lit "(" ++
    selectorText (fun _ name => name) "," ") VALUES(" 1 names ++
    selectorText (fun i _ => lit "?" ++ decimal i) "," ");" 1 names

def updateText (table : Bytes) (setNames whereNames : List Bytes) : Bytes :=
  lit "UPDATE " ++ table ++ lit " SET " ++ selectorText equationText "," "" 1 setNames ++
    whereText " WHERE " equationText " AND " (setNames.length + 1) whereNames

def deleteText (table : Bytes) (names : List Bytes) : Bytes :=
  lit "DELETE FROM " ++ table ++ lit " " ++ whereText "WHERE " equationText " AND " 1 names

def selectText (table : Bytes) (names : List Bytes) : Bytes :=
  lit "SELECT * FROM " ++ table ++ lit " " ++ whereText "WHERE " equationText " AND " 1 names

def searchText (table : Bytes) (names : List Bytes) : Bytes :=
  lit "SELECT * FROM " ++ table ++ lit " " ++ whereText "WHERE " likeText " OR " 1 names

def createTableText (table : Bytes) (params : QueryParams) : Bytes :=
  lit "CREATE TABLE IF NOT EXISTS " ++ table ++ lit "(" ++
    selectorText (fun _ column => column) "," ");" 1 (params.map fun p => p.1 ++ lit " " ++ p.2)

/-! ## Statements and their execution -/

/-- The calls of `sqlite3_bind_text`, from the parameter `?i` on. -/
def bindText : Nat → QueryParams → List (Nat × Bytes)
  | _, [] => []
  | i, p :: params => (i, cStr p.2) :: bindText (i + 1) params

def insertStatement (table : Bytes) (params : QueryParams) : SqlStatement :=
  ⟨insertText table (params.map Prod.fst), bindText 1 params⟩

def updateStatement (table : Bytes) (setParams whereParams : QueryParams) : SqlStatement :=
  ⟨updateText table (setParams.map Prod.fst) (whereParams.map Prod.fst),
    bindText 1 setParams ++ bindText (setParams.length + 1) whereParams⟩

def deleteStatement (table : Bytes) (params : QueryParams) : SqlStatement :=
  ⟨deleteText table (params.map Prod.fst), bindText 1 params⟩

def selectStatement (table : Bytes) (params : QueryParams) : SqlStatement :=
  ⟨selectText table (params.map Prod.fst), bindText 1 params⟩

def searchStatement (table : Bytes) (params : QueryParams) : SqlStatement :=
  ⟨searchText table (params.map Prod.fst), bindText 1 params⟩

/-- Prepare, step, and compare the result code with `SQLITE_DONE`. -/
def stepDone (st : SqlStatement) : Prog ε SqlStatement SqlReply Bool :=
  .call st fun reply => .ret reply.done

/-- Prepare, and collect the rows as C strings until there are no more. -/
def stepRows (st : SqlStatement) : Prog ε SqlStatement SqlReply (List Row) :=
  .call st fun reply => .ret (reply.rows.map fun row => row.map cStr)

/-- `sql_manager::insert_record`. -/
def insertRecord (table : Bytes) (params : QueryParams) : Prog ε SqlStatement SqlReply Bool :=
  stepDone (insertStatement table params)

/-- `sql_manager::update_record`. -/
def updateRecord (table : Bytes) (setParams whereParams : QueryParams) :
    Prog ε SqlStatement SqlReply Bool :=
  stepDone (updateStatement table setParams whereParams)

/-- `sql_manager::delete_record`. -/
def deleteRecord (table : Bytes) (params : QueryParams) : Prog ε SqlStatement SqlReply Bool :=
  stepDone (deleteStatement table params)

/-- `sql_manager::select_record`. -/
def selectRecord (table : Bytes) (params : QueryParams) :
    Prog ε SqlStatement SqlReply (List Row) :=
  stepRows (selectStatement table params)

/-- `sql_manager::search_record`. -/
def searchRecord (table : Bytes) (params : QueryParams) :
    Prog ε SqlStatement SqlReply (List Row) :=
  stepRows (searchStatement table params)

end GittyUp
