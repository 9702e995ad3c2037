import GittyUp.Lib.SqlText
import GittyUp.Meme.SqlLib

/-!
# What the statement texts say (`sql_lib.cc`)

The text of a statement, built from names alone, is read back as the statement
on these names whose parameters are numbered in order.
-/

namespace GittyUp

open Lib

/-! ## Pieces -/

/-- The token of a column. -/
def columnTokens (_ : Nat) (name : Bytes) : List SqlToken := [.word name]

/-- The token of a parameter. -/
def paramTokens (i : Nat) (_ : Bytes) : List SqlToken := [.param i]

/-- The tokens of `name= ?i`. -/
def equationTokens (i : Nat) (name : Bytes) : List SqlToken := [.word name, .sym '=', .param i]

/-- The tokens of `name LIKE '%' || ?i|| '%'`. -/
def likeTokens (i : Nat) (name : Bytes) : List SqlToken :=
  [.word name, kw "LIKE", .text "%", .concat, .param i, .concat, .text "%"]

theorem lexRun_param (i : Nat) :
    lexRun .blank (lit "?" ++ decimal i) = some ([], .param (decimal i)) := by
  have hmark : lexRun .blank (lit "?") = some ([], .param []) := rfl
  exact lexRun_append hmark (lexRun_decimal i)

/-- A parameter and what ends it. -/
theorem lexRun_param_append (i : Nat) {c : Byte} (hc : ¬ IsDigit c) {s : Bytes}
    {ts : List SqlToken} {q : SqlLexState} (hs : lexRun .blank (c :: s) = some (ts, q)) :
    lexRun .blank (lit "?" ++ decimal i ++ c :: s) = some ([.param i] ++ ts, q) := by
  have htext := lexRun_append (lexRun_param i) (lexRun_decimal_end i hc hs)
  exact htext

theorem lexRun_equationText (i : Nat) {name : Bytes} (h : IsSqlName name) :
    lexRun .blank (equationText i name) = some ([.word name, .sym '='], .param (decimal i)) := by
  have hmark : lexRun (.word name) (lit "= ?") = some ([.word name, .sym '='], .param []) := rfl
  exact lexRun_append (lexRun_append h.lexRun hmark) (lexRun_decimal i)

/-- An equation and what ends it. -/
theorem lexRun_equation_append (i : Nat) {name : Bytes} (h : IsSqlName name) {c : Byte}
    (hc : ¬ IsDigit c) {s : Bytes} {ts : List SqlToken} {q : SqlLexState}
    (hs : lexRun .blank (c :: s) = some (ts, q)) :
    lexRun .blank (equationText i name ++ c :: s) = some (equationTokens i name ++ ts, q) := by
  have htext := lexRun_append (lexRun_equationText i h) (lexRun_decimal_end i hc hs)
  exact htext

theorem lexRun_likeText (i : Nat) {name : Bytes} (h : IsSqlName name) :
    lexRun .blank (likeText i name) = some (likeTokens i name, .blank) := by
  have hmark : lexRun (.word name) (lit " LIKE '%' || ?") =
      some ([.word name, kw "LIKE", .text "%", .concat], .param []) := rfl
  have hend : lexRun (.param (decimal i)) (lit "|| '%'") =
      some ([.param i, .concat, .text "%"], .blank) :=
    lexRun_decimal_end i (c := '|') (by decide) rfl
  exact lexRun_append (lexRun_append (lexRun_append h.lexRun hmark) (lexRun_decimal i)) hend

/-- **The loops of the builders**: every selector becomes its own tokens, with
the separator between them, whatever the text after the last one completes. -/
theorem lexSql_selectorText {item : Nat → Bytes → Bytes} {tokens : Nat → Bytes → List SqlToken}
    {sep last rest : Bytes} {sepToken : SqlToken} {restTokens : List SqlToken}
    (hsep : ∀ i name, IsSqlName name →
      lexRun .blank (item i name ++ sep) = some (tokens i name ++ [sepToken], .blank))
    (hlast : ∀ i name, IsSqlName name →
      lexSql .blank (item i name ++ (last ++ rest)) = some (tokens i name ++ restTokens))
    {names : List Bytes} (hnames : ∀ name ∈ names, IsSqlName name) (hne : names ≠ []) (i : Nat) :
    lexSql .blank (selectorText item sep last i names ++ rest) =
      some (listTokens tokens sepToken i names ++ restTokens) := by
  induction names generalizing i with
  | nil => exact absurd rfl hne
  | cons name names ih =>
    obtain ⟨hname, hnames⟩ := List.forall_mem_cons.mp hnames
    cases names with
    | nil =>
      show lexSql .blank (item i name ++ last ++ rest) = _
      rw [List.append_assoc]
      exact hlast i name hname
    | cons name' names =>
      show lexSql .blank
        (item i name ++ sep ++ selectorText item sep last (i + 1) (name' :: names) ++ rest) = _
      rw [List.append_assoc, lexSql_append (hsep i name hname),
        ih hnames (List.cons_ne_nil _ _), listTokens_cons_cons, Option.map_some]
      simp only [List.append_assoc, List.cons_append, List.nil_append]

/-- The same, for text that leaves nothing open after the last selector. -/
theorem lexSql_selectorText_last {item : Nat → Bytes → Bytes}
    {tokens : Nat → Bytes → List SqlToken} {sep last : Bytes} {sepToken : SqlToken}
    {lastTokens : List SqlToken}
    (hsep : ∀ i name, IsSqlName name →
      lexRun .blank (item i name ++ sep) = some (tokens i name ++ [sepToken], .blank))
    (hlast : ∀ i name, IsSqlName name →
      lexRun .blank (item i name ++ last) = some (tokens i name ++ lastTokens, .blank))
    {names : List Bytes} (hnames : ∀ name ∈ names, IsSqlName name) (hne : names ≠ []) (i : Nat) :
    lexSql .blank (selectorText item sep last i names) =
      some (listTokens tokens sepToken i names ++ lastTokens) := by
  rw [← List.append_nil (selectorText item sep last i names)]
  refine lexSql_selectorText hsep (fun i name h => ?_) hnames hne i
  rw [List.append_nil]
  exact lexSql_of_lexRun (hlast i name h)

/-! ## Statements -/

theorem lexSql_equations {names : List Bytes} (hnames : ∀ name ∈ names, IsSqlName name)
    (hne : names ≠ []) (i : Nat) :
    lexSql .blank (selectorText equationText " AND " ";" i names) =
      some (listTokens equationTokens (kw "AND") i names ++ [.sym ';']) :=
  lexSql_selectorText_last
    (fun i _ h => lexRun_equation_append i h (c := ' ') (by decide) rfl)
    (fun i _ h => lexRun_equation_append i h (c := ';') (by decide) rfl) hnames hne i

theorem lexSql_likes {names : List Bytes} (hnames : ∀ name ∈ names, IsSqlName name)
    (hne : names ≠ []) (i : Nat) :
    lexSql .blank (selectorText likeText " OR " ";" i names) =
      some (listTokens likeTokens (kw "OR") i names ++ [.sym ';']) :=
  lexSql_selectorText_last (fun i _ h => lexRun_append (lexRun_likeText i h) rfl)
    (fun i _ h => lexRun_append (lexRun_likeText i h) rfl) hnames hne i

/-- The tokens of the conditions. -/
def whereTokens (item : Nat → Bytes → List SqlToken) (op : String) (i : Nat)
    (names : List Bytes) : List SqlToken :=
  if names = [] then [] else kw "WHERE" :: (listTokens item (kw op) i names ++ [.sym ';'])

theorem lexSql_whereText {names : List Bytes} (hnames : ∀ name ∈ names, IsSqlName name) (i : Nat) :
    lexSql .blank (whereText "WHERE " equationText " AND " i names) =
      some (whereTokens equationTokens "AND" i names) := by
  unfold whereText whereTokens
  split_ifs with h
  · rfl
  · have hwhere : lexRun .blank "WHERE " = some ([kw "WHERE"], .blank) := rfl
    rw [lexSql_append hwhere, lexSql_equations hnames h]
    rfl

/-- The last assignment of an update, and the conditions behind it. -/
theorem lexSql_equation_whereText (n : Nat) {name : Bytes} (hname : IsSqlName name)
    {names : List Bytes} (hnames : ∀ name ∈ names, IsSqlName name) (i : Nat) :
    lexSql .blank (equationText n name ++ whereText " WHERE " equationText " AND " i names) =
      some (equationTokens n name ++ whereTokens equationTokens "AND" i names) := by
  unfold whereText whereTokens
  split_ifs with h
  · rw [lexSql_append (lexRun_equationText n hname), lexSql, (decimal_spec n).2.2]
    rfl
  · have hwhere : lexRun .blank (equationText n name ++ lit " WHERE ") =
        some (equationTokens n name ++ [kw "WHERE"], .blank) :=
      lexRun_equation_append n hname (c := ' ') (by decide) rfl
    rw [← List.append_assoc, lexSql_append hwhere, lexSql_equations hnames h, Option.map_some,
      List.append_assoc]
    rfl

/-- How selections and searches begin. -/
theorem lexRun_selectFrom {table : Bytes} (htable : IsSqlName table) :
    lexRun .blank (lit "SELECT * FROM " ++ table ++ lit " ") =
      some ([kw "SELECT", .sym '*', kw "FROM", .word table], .blank) := by
  have hselect : lexRun .blank (lit "SELECT * FROM ") =
      some ([kw "SELECT", .sym '*', kw "FROM"], .blank) := rfl
  have hblank : lexRun (.word table) (lit " ") = some ([.word table], .blank) := rfl
  exact lexRun_append (lexRun_append hselect htable.lexRun) hblank

theorem lexSql_insertText {table : Bytes} (htable : IsSqlName table) {names : List Bytes}
    (hnames : ∀ name ∈ names, IsSqlName name) (hne : names ≠ []) :
    lexSql .blank (insertText table names) =
      some (kw "INSERT" :: kw "INTO" :: .word table :: .sym '(' ::
        (listTokens columnTokens (.sym ',') 1 names ++
          .sym ')' :: kw "VALUES" :: .sym '(' ::
            (listTokens paramTokens (.sym ',') 1 names ++ [.sym ')', .sym ';']))) := by
  have hinto : lexRun .blank (lit "INSERT INTO ") = some ([kw "INSERT", kw "INTO"], .blank) := rfl
  have hopen : lexRun (.word table) (lit "(") = some ([.word table, .sym '('], .blank) := rfl
  have hhead := lexRun_append (lexRun_append hinto htable.lexRun) hopen
  have hparams : lexSql .blank (selectorText (fun i _ => lit "?" ++ decimal i) "," ");" 1 names) =
      some (listTokens paramTokens (.sym ',') 1 names ++ [.sym ')', .sym ';']) :=
    lexSql_selectorText_last (fun i _ _ => lexRun_param_append i (c := ',') (by decide) rfl)
      (fun i _ _ => lexRun_param_append i (c := ')') (by decide) rfl) hnames hne 1
  have hcolumns : lexSql .blank (selectorText (fun _ name => name) "," ") VALUES(" 1 names ++
      selectorText (fun i _ => lit "?" ++ decimal i) "," ");" 1 names) =
      some (listTokens columnTokens (.sym ',') 1 names ++
        .sym ')' :: kw "VALUES" :: .sym '(' ::
          (listTokens paramTokens (.sym ',') 1 names ++ [.sym ')', .sym ';'])) := by
    refine lexSql_selectorText (fun i name h => ?_) (fun i name h => ?_) hnames hne 1
    · exact h.lexRun_append (c := ',') (by decide) rfl
    · have hvalues : lexRun .blank (name ++ lit ") VALUES(") =
          some ([.word name] ++ [.sym ')', kw "VALUES", .sym '('], .blank) :=
        h.lexRun_append (c := ')') (by decide) rfl
      rw [← List.append_assoc, lexSql_append hvalues, hparams]
      rfl
  rw [insertText, List.append_assoc, lexSql_append hhead, hcolumns]
  rfl

theorem lexSql_updateText {table : Bytes} (htable : IsSqlName table) {setNames : List Bytes}
    (hset : ∀ name ∈ setNames, IsSqlName name) (hne : setNames ≠ []) {whereNames : List Bytes}
    (hwhere : ∀ name ∈ whereNames, IsSqlName name) :
    lexSql .blank (updateText table setNames whereNames) =
      some (kw "UPDATE" :: .word table :: kw "SET" ::
        (listTokens equationTokens (.sym ',') 1 setNames ++
          whereTokens equationTokens "AND" (setNames.length + 1) whereNames)) := by
  have hupdate : lexRun .blank (lit "UPDATE ") = some ([kw "UPDATE"], .blank) := rfl
  have hsetWord : lexRun (.word table) (lit " SET ") = some ([.word table, kw "SET"], .blank) := rfl
  have hhead := lexRun_append (lexRun_append hupdate htable.lexRun) hsetWord
  have hlist : lexSql .blank (selectorText equationText "," "" 1 setNames ++
      whereText " WHERE " equationText " AND " (setNames.length + 1) whereNames) =
      some (listTokens equationTokens (.sym ',') 1 setNames ++
        whereTokens equationTokens "AND" (setNames.length + 1) whereNames) :=
    lexSql_selectorText (fun i name h => lexRun_equation_append i h (c := ',') (by decide) rfl)
      (fun i name h => lexSql_equation_whereText i h hwhere _) hset hne 1
  rw [updateText, List.append_assoc, lexSql_append hhead, hlist]
  rfl

/-! ## Reading back -/

theorem readColumn_tokens (i : Nat) (name : Bytes) (ts : List SqlToken) :
    readColumn (columnTokens i name ++ ts) = some (name, ts) := rfl

theorem readParam_tokens (i : Nat) (name : Bytes) (ts : List SqlToken) :
    readParam (paramTokens i name ++ ts) = some (i, ts) := rfl

theorem readEquation_tokens (i : Nat) (name : Bytes) (ts : List SqlToken) :
    readEquation (equationTokens i name ++ ts) = some ((name, i), ts) := rfl

theorem readLike_tokens (i : Nat) (name : Bytes) (ts : List SqlToken) :
    readLike (likeTokens i name ++ ts) = some ((name, i), ts) := rfl

theorem readWhere_equations (i : Nat) (names : List Bytes) :
    readWhere readEquation (kw "AND") (whereTokens equationTokens "AND" i names) =
      some (names.zipIdx i) := by
  unfold whereTokens
  split_ifs with h
  · rw [h]
    rfl
  · rw [readWhere_listTokens readEquation_tokens (fun _ _ => List.cons_ne_nil _ _) h]
    exact congrArg some (List.map_id _)

theorem readWhere_likes (i : Nat) {names : List Bytes} (hne : names ≠ []) :
    readWhere readLike (kw "OR") (whereTokens likeTokens "OR" i names) =
      some (names.zipIdx i) := by
  rw [whereTokens, if_neg hne,
    readWhere_listTokens readLike_tokens (fun _ _ => List.cons_ne_nil _ _) hne]
  exact congrArg some (List.map_id _)

/-- A search is not read as a selection. -/
theorem readWhere_likes_none (i : Nat) {names : List Bytes} (hne : names ≠ []) :
    readWhere readEquation (kw "AND") (whereTokens likeTokens "OR" i names) = none := by
  obtain ⟨name, names, rfl⟩ := List.exists_cons_of_ne_nil hne
  rw [whereTokens, if_neg hne]
  cases names <;> rfl

theorem whereTokens_ne_sym (item : Nat → Bytes → List SqlToken) (op : String) (i : Nat)
    (names : List Bytes) (c : Byte) (ts : List SqlToken) :
    whereTokens item op i names ≠ .sym c :: ts := by
  unfold whereTokens
  split_ifs
  · exact fun h => by cases h
  · exact fun h => by cases h

theorem parseSql_insertText {table : Bytes} (htable : IsSqlName table) {names : List Bytes}
    (hnames : ∀ name ∈ names, IsSqlName name) (hne : names ≠ []) :
    parseSql (insertText table names) =
      some (.insert table names (List.range' 1 names.length)) := by
  let values : List SqlToken := listTokens paramTokens (.sym ',') 1 names ++ [.sym ')', .sym ';']
  let rest : List SqlToken := .sym ')' :: kw "VALUES" :: .sym '(' :: values
  let columns : List SqlToken := listTokens columnTokens (.sym ',') 1 names ++ rest
  have hcolumns : readList readColumn (.sym ',') columns.length columns =
      some ((names.zipIdx 1).map fun p => p.1, rest) := by
    have hlength : names.length ≤ columns.length :=
      length_le_listTokens_append (fun _ _ => List.cons_ne_nil _ _) 1 names rest
    have hrest : rest.head? ≠ some (.sym ',') := fun h => by cases h
    exact readList_listTokens readColumn_tokens hrest hne 1 hlength
  have hparams : readList readParam (.sym ',') (values.length + 3) values =
      some ((names.zipIdx 1).map fun p => p.2, [.sym ')', .sym ';']) := by
    have hlength : names.length ≤ values.length :=
      length_le_listTokens_append (fun _ _ => List.cons_ne_nil _ _) 1 names _
    have hrest : [SqlToken.sym ')', .sym ';'].head? ≠ some (.sym ',') := fun h => by cases h
    exact readList_listTokens readParam_tokens hrest hne 1 (Nat.le_add_right_of_le hlength)
  rw [List.zipIdx_map_fst] at hcolumns
  rw [List.zipIdx_map_snd] at hparams
  rw [parseSql, lexSql_insertText htable hnames hne]
  exact parseSqlTokens_insert hcolumns hparams

theorem parseSql_updateText {table : Bytes} (htable : IsSqlName table) {setNames : List Bytes}
    (hset : ∀ name ∈ setNames, IsSqlName name) (hne : setNames ≠ []) {whereNames : List Bytes}
    (hwhere : ∀ name ∈ whereNames, IsSqlName name) :
    parseSql (updateText table setNames whereNames) =
      some (.update table (setNames.zipIdx 1) (whereNames.zipIdx (setNames.length + 1))) := by
  let conditions := whereTokens equationTokens "AND" (setNames.length + 1) whereNames
  let assignments : List SqlToken := listTokens equationTokens (.sym ',') 1 setNames ++ conditions
  have hassign : readList readEquation (.sym ',') assignments.length assignments =
      some ((setNames.zipIdx 1).map fun p => (p.1, p.2), conditions) := by
    have hlength : setNames.length ≤ assignments.length :=
      length_le_listTokens_append (fun _ _ => List.cons_ne_nil _ _) 1 setNames conditions
    have hrest : conditions.head? ≠ some (.sym ',') := fun h => by
      obtain ⟨ts, hts⟩ := List.head?_eq_some_iff.mp h
      exact whereTokens_ne_sym _ _ _ _ _ _ hts
    exact readList_listTokens readEquation_tokens hrest hne 1 hlength
  have hword : ∀ c ts, assignments ≠ .sym c :: ts := by
    intro c ts
    obtain ⟨name, names, rfl⟩ := List.exists_cons_of_ne_nil hne
    cases names <;> exact fun h => by cases (List.cons.inj h).1
  have hcond := readWhere_equations (setNames.length + 1) whereNames
  rw [parseSql, lexSql_updateText htable hset hne hwhere]
  rw [List.map_id'] at hassign
  exact parseSqlTokens_update hword hassign hcond

theorem parseSql_deleteText {table : Bytes} (htable : IsSqlName table) {names : List Bytes}
    (hnames : ∀ name ∈ names, IsSqlName name) :
    parseSql (deleteText table names) = some (.delete table (names.zipIdx 1)) := by
  have hdelete : lexRun .blank (lit "DELETE FROM ") = some ([kw "DELETE", kw "FROM"], .blank) := rfl
  have hblank : lexRun (.word table) (lit " ") = some ([.word table], .blank) := rfl
  have hhead := lexRun_append (lexRun_append hdelete htable.lexRun) hblank
  rw [parseSql, deleteText, lexSql_append hhead, lexSql_whereText hnames]
  exact parseSqlTokens_delete (whereTokens_ne_sym _ _ _ _) (readWhere_equations 1 names)

theorem parseSql_selectText {table : Bytes} (htable : IsSqlName table) {names : List Bytes}
    (hnames : ∀ name ∈ names, IsSqlName name) :
    parseSql (selectText table names) = some (.select table (names.zipIdx 1)) := by
  rw [parseSql, selectText, lexSql_append (lexRun_selectFrom htable), lexSql_whereText hnames]
  exact parseSqlTokens_select (readWhere_equations 1 names)

theorem parseSql_searchText {table : Bytes} (htable : IsSqlName table) {names : List Bytes}
    (hnames : ∀ name ∈ names, IsSqlName name) (hne : names ≠ []) :
    parseSql (searchText table names) = some (.search table (names.zipIdx 1)) := by
  have hwhere : lexRun .blank "WHERE " = some ([kw "WHERE"], .blank) := rfl
  have hlikes : lexSql .blank (whereText "WHERE " likeText " OR " 1 names) =
      some (whereTokens likeTokens "OR" 1 names) := by
    rw [whereText, whereTokens, if_neg hne, if_neg hne, lexSql_append hwhere,
      lexSql_likes hnames hne]
    rfl
  rw [parseSql, searchText, lexSql_append (lexRun_selectFrom htable), hlikes]
  exact parseSqlTokens_search (readWhere_likes_none 1 hne) (readWhere_likes 1 hne)

end GittyUp
