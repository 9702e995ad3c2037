import GittyUp.Lib.RegexSearch

/-!
# A subset of SQL: syntax

The statements are those on one table with text columns: creating it, inserting
a row, updating, deleting and selecting the rows in which columns equal given
values, and searching rows by `LIKE`. Values stand in a statement as numbered
parameters only. `parseSql` reads a statement from its text; keywords are
expected in upper case.
-/

namespace Lib

/-- A column of a `CREATE TABLE`; all are of type `TEXT` and `NOT NULL`. -/
structure ColumnDef where
  name : Bytes
  primaryKey : Bool
  deriving DecidableEq, Repr

/-- A statement. A pair `(c, n)` is the equation `c = ?n`, or in a search the
condition `c LIKE '%' || ?n || '%'`. -/
inductive Sql where
  | create (table : Bytes) (columns : List ColumnDef)
  | insert (table : Bytes) (columns : List Bytes) (params : List Nat)
  | update (table : Bytes) (set cond : List (Bytes × Nat))
  | delete (table : Bytes) (cond : List (Bytes × Nat))
  | select (table : Bytes) (cond : List (Bytes × Nat))
  | search (table : Bytes) (likes : List (Bytes × Nat))
  deriving DecidableEq, Repr

/-! ## Tokens -/

/-- The tokens of a statement; `concat` is the operator `||`. -/
inductive SqlToken where
  | word (w : Bytes)
  | param (n : Nat)
  | text (s : Bytes)
  | sym (c : Byte)
  | concat
  deriving DecidableEq, Repr

/-- What the lexer is in the middle of. -/
inductive SqlLexState where
  | blank
  | word (w : Bytes)
  | param (ds : Bytes)
  | text (s : Bytes)
  | bar
  deriving DecidableEq, Repr

/-- The first character of something new: the token it makes by itself, and the
state it leads to. -/
def beginSqlToken (c : Byte) : List SqlToken × SqlLexState :=
  if IsSpace c then ([], .blank)
  else if IsWordChar c then ([], .word [c])
  else if c = '?' then ([], .param [])
  else if c = '\'' then ([], .text [])
  else if c = '|' then ([], .bar)
  else ([.sym c], .blank)

/-- The tokens of a text, read from a state on. -/
def lexSql : SqlLexState → Bytes → Option (List SqlToken)
  | .blank, [] => some []
  | .word w, [] => some [.word w]
  | .param ds, [] => some [.param (digitsValue ds)]
  | .text _, [] => none
  | .bar, [] => none
  | .blank, c :: s => do
    let ts ← lexSql (beginSqlToken c).2 s
    return (beginSqlToken c).1 ++ ts
  | .word w, c :: s =>
    if IsWordChar c then lexSql (.word (w ++ [c])) s
    else do
      let ts ← lexSql (beginSqlToken c).2 s
      return .word w :: (beginSqlToken c).1 ++ ts
  | .param ds, c :: s =>
    if IsDigit c then lexSql (.param (ds ++ [c])) s
    else do
      let ts ← lexSql (beginSqlToken c).2 s
      return .param (digitsValue ds) :: (beginSqlToken c).1 ++ ts
  | .text v, c :: s =>
    if c = '\'' then do
      let ts ← lexSql .blank s
      return .text v :: ts
    else lexSql (.text (v ++ [c])) s
  | .bar, c :: s =>
    if c = '|' then do
      let ts ← lexSql .blank s
      return .concat :: ts
    else none

/-! ## Statements -/

/-- A keyword. -/
def kw (s : String) : SqlToken := .word (lit s)

/-- What a reader of one item returns: the item, and the tokens after it. -/
abbrev SqlReader (β : Type) := List SqlToken → Option (β × List SqlToken)

/-- One or more items, at most `fuel`, with `sep` between them. -/
def readList {β : Type} (item : SqlReader β) (sep : SqlToken) : Nat → SqlReader (List β)
  | 0, _ => none
  | fuel + 1, ts => do
    let (x, ts) ← item ts
    match ts with
    | t :: rest =>
      if t = sep then do
        let (xs, ts) ← readList item sep fuel rest
        return (x :: xs, ts)
      else return ([x], t :: rest)
    | [] => return ([x], [])

/-- A column name. -/
def readColumn : SqlReader Bytes
  | .word c :: ts => some (c, ts)
  | _ => none

/-- A parameter `?n`. -/
def readParam : SqlReader Nat
  | .param n :: ts => some (n, ts)
  | _ => none

/-- `c = ?n`. -/
def readEquation : SqlReader (Bytes × Nat)
  | .word c :: .sym eq :: .param n :: ts => if eq = '=' then some ((c, n), ts) else none
  | _ => none

/-- `c LIKE '%' || ?n || '%'`. -/
def readLike : SqlReader (Bytes × Nat)
  | .word c :: like :: .text p :: .concat :: .param n :: .concat :: .text q :: ts =>
    if like = kw "LIKE" ∧ p = lit "%" ∧ q = lit "%" then some ((c, n), ts) else none
  | _ => none

/-- `c TEXT [PRIMARY KEY] NOT NULL`. -/
def readColumnDef : SqlReader ColumnDef
  | .word c :: text :: ts =>
    if text = kw "TEXT" then
      if [kw "PRIMARY", kw "KEY", kw "NOT", kw "NULL"].isPrefixOf ts then
        some (⟨c, true⟩, ts.drop 4)
      else if [kw "NOT", kw "NULL"].isPrefixOf ts then some (⟨c, false⟩, ts.drop 2)
      else none
    else none
  | _ => none

/-- Nothing follows, or a single semicolon. -/
def endOfStatement (ts : List SqlToken) : Bool := ts = [] ∨ ts = [.sym ';']

/-- An optional `WHERE` with conditions, up to the end of the statement. -/
def readWhere (item : SqlReader (Bytes × Nat)) (sep : SqlToken) (ts : List SqlToken) :
    Option (List (Bytes × Nat)) :=
  match ts with
  | [] => some []
  | t :: rest =>
    if t = kw "WHERE" then do
      let (cond, ts) ← readList item sep rest.length rest
      if endOfStatement ts then some cond else none
    else if endOfStatement (t :: rest) then some []
    else none

/-- The statement that the tokens make up. -/
def parseSqlTokens : List SqlToken → Option Sql
  | .word verb :: .word into :: .word table :: .sym paren :: ts =>
    if verb = lit "INSERT" ∧ into = lit "INTO" ∧ paren = '(' then do
      let (columns, ts) ← readList readColumn (.sym ',') ts.length ts
      if [.sym ')', kw "VALUES", .sym '('].isPrefixOf ts then
        let (params, ts) ← readList readParam (.sym ',') ts.length (ts.drop 3)
        if ts = [.sym ')'] ∨ ts = [.sym ')', .sym ';'] then some (.insert table columns params)
        else none
      else none
    else none
  | .word verb :: .sym star :: .word frm :: .word table :: ts =>
    if verb = lit "SELECT" ∧ star = '*' ∧ frm = lit "FROM" then
      match readWhere readEquation (kw "AND") ts with
      | some cond => some (.select table cond)
      | none => (readWhere readLike (kw "OR") ts).map (.search table)
    else none
  | .word verb :: .word second :: .word third :: ts =>
    if verb = lit "UPDATE" ∧ third = lit "SET" then do
      let (set, ts) ← readList readEquation (.sym ',') ts.length ts
      let cond ← readWhere readEquation (kw "AND") ts
      return .update second set cond
    else if verb = lit "DELETE" ∧ second = lit "FROM" then
      (readWhere readEquation (kw "AND") ts).map (.delete third)
    else if verb = lit "CREATE" ∧ second = lit "TABLE" ∧ third = lit "IF" then
      match ts with
      | not :: ex :: .word table :: .sym paren :: ts =>
        if not = kw "NOT" ∧ ex = kw "EXISTS" ∧ paren = '(' then do
          let (columns, ts) ← readList readColumnDef (.sym ',') ts.length ts
          if ts = [.sym ')'] ∨ ts = [.sym ')', .sym ';'] then some (.create table columns)
          else none
        else none
      | _ => none
    else none
  | _ => none

/-- The statement that a text is, if it is one of the subset. -/
def parseSql (text : Bytes) : Option Sql := lexSql .blank text >>= parseSqlTokens

example : parseSql "UPDATE t SET a= ?1,b= ?2 WHERE c= ?3;" =
    some (.update "t" [("a", 1), ("b", 2)] [("c", 3)]) := by decide

example : parseSql "SELECT * FROM t WHERE a LIKE '%' || ?1|| '%' OR b LIKE '%' || ?2|| '%';" =
    some (.search "t" [("a", 1), ("b", 2)]) := by decide

end Lib
