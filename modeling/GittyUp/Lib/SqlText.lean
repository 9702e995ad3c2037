import GittyUp.Lib.Sql

/-!
# Reading SQL piece by piece

The lexer is a machine that reads one character after another, so that a text is
read piece by piece, each from the state that the piece before it has led to. A
list of items with separators is read back item by item.
-/

namespace Lib

/-! ## The lexer as a machine -/

/-- One character: the tokens that it completes, and the next state. -/
def lexStep : SqlLexState → Byte → Option (List SqlToken × SqlLexState)
  | .blank, c => some (beginSqlToken c)
  | .word w, c =>
    if IsWordChar c then some ([], .word (w ++ [c]))
    else some (.word w :: (beginSqlToken c).1, (beginSqlToken c).2)
  | .param ds, c =>
    if IsDigit c then some ([], .param (ds ++ [c]))
    else some (.param (digitsValue ds) :: (beginSqlToken c).1, (beginSqlToken c).2)
  | .text v, c => if c = '\'' then some ([.text v], .blank) else some ([], .text (v ++ [c]))
  | .bar, c => if c = '|' then some ([.concat], .blank) else none

/-- A piece of text: the tokens that it completes, and the state behind it. -/
def lexRun : SqlLexState → Bytes → Option (List SqlToken × SqlLexState)
  | q, [] => some ([], q)
  | q, c :: s => do
    let (ts, q) ← lexStep q c
    let (ts', q) ← lexRun q s
    return (ts ++ ts', q)

theorem lexSql_cons (q : SqlLexState) (c : Byte) (s : Bytes) :
    lexSql q (c :: s) =
      (lexStep q c).bind fun r => (lexSql r.2 s).map (r.1 ++ ·) := by
  cases q with
  | blank =>
    rw [lexSql]
    show _ = (lexSql (beginSqlToken c).2 s).map _
    cases lexSql (beginSqlToken c).2 s <;> rfl
  | word w =>
    rw [lexSql, lexStep]
    split_ifs
    · show _ = (lexSql (.word (w ++ [c])) s).map _
      cases lexSql (.word (w ++ [c])) s <;> rfl
    · show _ = (lexSql (beginSqlToken c).2 s).map _
      cases lexSql (beginSqlToken c).2 s <;> rfl
  | param ds =>
    rw [lexSql, lexStep]
    split_ifs
    · show _ = (lexSql (.param (ds ++ [c])) s).map _
      cases lexSql (.param (ds ++ [c])) s <;> rfl
    · show _ = (lexSql (beginSqlToken c).2 s).map _
      cases lexSql (beginSqlToken c).2 s <;> rfl
  | text v =>
    rw [lexSql, lexStep]
    split_ifs
    · show _ = (lexSql .blank s).map _
      cases lexSql .blank s <;> rfl
    · show _ = (lexSql (.text (v ++ [c])) s).map _
      cases lexSql (.text (v ++ [c])) s <;> rfl
  | bar =>
    rw [lexSql, lexStep]
    split_ifs
    · show _ = (lexSql .blank s).map _
      cases lexSql .blank s <;> rfl
    · rfl

/-- **What follows a piece is read from the state that the piece leads to.** -/
theorem lexSql_append {q q' : SqlLexState} {s : Bytes} {ts : List SqlToken}
    (h : lexRun q s = some (ts, q')) (rest : Bytes) :
    lexSql q (s ++ rest) = (lexSql q' rest).map (ts ++ ·) := by
  induction s generalizing q ts with
  | nil =>
    obtain ⟨rfl, rfl⟩ := Prod.mk.inj (Option.some.inj h)
    show lexSql q rest = (lexSql q rest).map ([] ++ ·)
    cases lexSql q rest <;> rfl
  | cons c s ih =>
    obtain ⟨⟨ts₁, q₁⟩, hstep, h⟩ := Option.bind_eq_some_iff.mp h
    obtain ⟨⟨ts₂, q₂⟩, hrun, h⟩ := Option.bind_eq_some_iff.mp h
    obtain ⟨rfl, rfl⟩ := Prod.mk.inj (Option.some.inj h)
    rw [List.cons_append, lexSql_cons, hstep, Option.bind_some, ih hrun, Option.map_map]
    exact congrArg (fun f => (lexSql q₂ rest).map f)
      (funext fun ts => (List.append_assoc ts₁ ts₂ ts).symm)

/-- A whole text that leaves nothing open. -/
theorem lexSql_of_lexRun {q : SqlLexState} {s : Bytes} {ts : List SqlToken}
    (h : lexRun q s = some (ts, .blank)) : lexSql q s = some ts := by
  rw [← List.append_nil s, lexSql_append h []]
  exact congrArg some (List.append_nil ts)

theorem lexRun_append {q q' q'' : SqlLexState} {s s' : Bytes} {ts ts' : List SqlToken}
    (h : lexRun q s = some (ts, q')) (h' : lexRun q' s' = some (ts', q'')) :
    lexRun q (s ++ s') = some (ts ++ ts', q'') := by
  induction s generalizing q ts with
  | nil =>
    obtain ⟨rfl, rfl⟩ := Prod.mk.inj (Option.some.inj h)
    exact h'
  | cons c s ih =>
    obtain ⟨⟨ts₁, q₁⟩, hstep, h⟩ := Option.bind_eq_some_iff.mp h
    obtain ⟨⟨ts₂, q₂⟩, hrun, h⟩ := Option.bind_eq_some_iff.mp h
    obtain ⟨rfl, rfl⟩ := Prod.mk.inj (Option.some.inj h)
    rw [List.cons_append, lexRun, hstep, List.append_assoc]
    show (lexRun q₁ (s ++ s')).bind _ = _
    rw [ih hrun]
    rfl

/-- What ends a token: a character that begins something new. -/
theorem lexRun_end {q q' : SqlLexState} {t : SqlToken} {c : Byte} {s : Bytes} {ts : List SqlToken}
    (hstep : lexStep q c = some (t :: (beginSqlToken c).1, (beginSqlToken c).2))
    (h : lexRun .blank (c :: s) = some (ts, q')) : lexRun q (c :: s) = some (t :: ts, q') := by
  rw [lexRun, lexStep] at h
  rw [lexRun, hstep]
  change (lexRun (beginSqlToken c).2 s).bind _ = _ at h
  show (lexRun (beginSqlToken c).2 s).bind _ = _
  cases hrun : lexRun (beginSqlToken c).2 s with
  | none => rw [hrun] at h; cases h
  | some r =>
    rw [hrun] at h
    obtain ⟨rfl, rfl⟩ := Prod.mk.inj (Option.some.inj h)
    rfl

/-! ## Names and parameters -/

/-- An identifier that needs no quotes (reserved words apart). -/
def IsSqlName (w : Bytes) : Prop :=
  w ≠ [] ∧ (∀ c ∈ w, IsWordChar c) ∧ ∀ c ∈ w.head?, ¬ IsDigit c

instance : DecidablePred IsSqlName := fun _ => inferInstanceAs (Decidable (_ ∧ _ ∧ _))

theorem not_isSpace_of_isWordChar {c : Byte} (h : IsWordChar c) : ¬ IsSpace c := by
  unfold IsWordChar IsDigit at h
  unfold IsSpace
  simp only [UInt8.le_iff_toNat_le, ← UInt8.toNat_inj] at *
  simp at *
  omega

/-- The rest of a word. -/
theorem lexRun_word {s : Bytes} (h : ∀ c ∈ s, IsWordChar c) (w : Bytes) :
    lexRun (.word w) s = some ([], .word (w ++ s)) := by
  induction s generalizing w with
  | nil => rw [List.append_nil]; rfl
  | cons c s ih =>
    obtain ⟨hc, hs⟩ := List.forall_mem_cons.mp h
    rw [lexRun, lexStep, if_pos hc]
    show (lexRun (.word (w ++ [c])) s).bind _ = _
    rw [ih hs, List.append_assoc]
    rfl

/-- A name is one word. -/
theorem IsSqlName.lexRun {w : Bytes} (h : IsSqlName w) : lexRun .blank w = some ([], .word w) := by
  obtain ⟨hne, hw, -⟩ := h
  obtain ⟨c, s, rfl⟩ := List.exists_cons_of_ne_nil hne
  obtain ⟨hc, hs⟩ := List.forall_mem_cons.mp hw
  have hbegin : beginSqlToken c = ([], .word [c]) := by
    rw [beginSqlToken, if_neg (not_isSpace_of_isWordChar hc), if_pos hc]
  rw [Lib.lexRun, lexStep, hbegin]
  show (Lib.lexRun (.word [c]) s).bind _ = _
  rw [lexRun_word hs]
  rfl

/-- A name and what ends it. -/
theorem IsSqlName.lexRun_append {w : Bytes} (h : IsSqlName w) {c : Byte} (hc : ¬ IsWordChar c)
    {s : Bytes} {ts : List SqlToken} {q : SqlLexState}
    (hs : Lib.lexRun .blank (c :: s) = some (ts, q)) :
    Lib.lexRun .blank (w ++ c :: s) = some ([.word w] ++ ts, q) := by
  have hend : lexStep (.word w) c = some (.word w :: (beginSqlToken c).1, (beginSqlToken c).2) := by
    rw [lexStep, if_neg hc]
  have htext := Lib.lexRun_append h.lexRun (lexRun_end hend hs)
  exact htext

/-- The digits of a parameter. -/
theorem lexRun_digits {s : Bytes} (h : ∀ c ∈ s, IsDigit c) (ds : Bytes) :
    lexRun (.param ds) s = some ([], .param (ds ++ s)) := by
  induction s generalizing ds with
  | nil => rw [List.append_nil]; rfl
  | cons c s ih =>
    obtain ⟨hc, hs⟩ := List.forall_mem_cons.mp h
    rw [lexRun, lexStep, if_pos hc]
    show (lexRun (.param (ds ++ [c])) s).bind _ = _
    rw [ih hs, List.append_assoc]
    rfl

theorem lexRun_decimal (i : Nat) :
    lexRun (.param []) (decimal i) = some ([], .param (decimal i)) :=
  lexRun_digits (decimal_spec i).2.1 []

/-- What ends a parameter. -/
theorem lexRun_decimal_end (i : Nat) {c : Byte} (hc : ¬ IsDigit c) {s : Bytes}
    {ts : List SqlToken} {q : SqlLexState} (h : lexRun .blank (c :: s) = some (ts, q)) :
    lexRun (.param (decimal i)) (c :: s) = some (.param i :: ts, q) := by
  have hend : lexStep (.param (decimal i)) c =
      some (.param i :: (beginSqlToken c).1, (beginSqlToken c).2) := by
    rw [lexStep, if_neg hc, (decimal_spec i).2.2]
  exact lexRun_end hend h

/-! ## Lists of items -/

section Lists

variable {β γ : Type}

/-- The tokens of items with separators between them. The items are numbered from
`i` on. -/
def listTokens (item : Nat → β → List SqlToken) (sep : SqlToken) : Nat → List β → List SqlToken
  | _, [] => []
  | i, [x] => item i x
  | i, x :: xs => item i x ++ sep :: listTokens item sep (i + 1) xs

variable {item : Nat → β → List SqlToken} {sep : SqlToken}

theorem listTokens_cons_cons (i : Nat) (x y : β) (xs : List β) :
    listTokens item sep i (x :: y :: xs) =
      item i x ++ sep :: listTokens item sep (i + 1) (y :: xs) := rfl

theorem length_le_listTokens (h : ∀ i x, item i x ≠ []) (i : Nat) (xs : List β) :
    xs.length ≤ (listTokens item sep i xs).length := by
  induction xs generalizing i with
  | nil => exact Nat.zero_le _
  | cons x xs ih =>
    have hx := List.length_pos_iff.mpr (h i x)
    cases xs with
    | nil => exact hx
    | cons y xs =>
      have hrest := ih (i + 1)
      rw [listTokens_cons_cons, List.length_append]
      simp only [List.length_cons] at hrest ⊢
      omega

/-- There are at least as many tokens as items. -/
theorem length_le_listTokens_append (h : ∀ i x, item i x ≠ []) (i : Nat) (xs : List β)
    (rest : List SqlToken) : xs.length ≤ (listTokens item sep i xs ++ rest).length := by
  have hlength := @length_le_listTokens _ item sep h i xs
  rw [List.length_append]
  omega

/-- **A list is read back item by item**, up to tokens that do not begin with a
separator. -/
theorem readList_listTokens {read : SqlReader γ} {value : Nat → β → γ}
    (hread : ∀ i x ts, read (item i x ++ ts) = some (value i x, ts)) {rest : List SqlToken}
    (hrest : rest.head? ≠ some sep) {xs : List β} (hne : xs ≠ []) (i : Nat) {fuel : Nat}
    (hfuel : xs.length ≤ fuel) : readList read sep fuel (listTokens item sep i xs ++ rest) =
      some ((xs.zipIdx i).map fun p => value p.2 p.1, rest) := by
  induction xs generalizing i fuel with
  | nil => exact absurd rfl hne
  | cons x xs ih =>
    obtain ⟨fuel, rfl⟩ : ∃ n, fuel = n + 1 := ⟨fuel - 1, by rw [List.length_cons] at hfuel; omega⟩
    cases xs with
    | nil =>
      rw [readList, listTokens, hread]
      cases rest with
      | nil => rfl
      | cons t rest =>
        have ht : t ≠ sep := fun h => hrest (congrArg some h)
        show (if t = sep then _ else some ([value i x], t :: rest)) = _
        rw [if_neg ht]
        rfl
    | cons y xs =>
      have hrec := ih (List.cons_ne_nil _ _) (i + 1) (Nat.le_of_succ_le_succ hfuel)
      rw [readList, listTokens_cons_cons, List.append_assoc, hread, List.cons_append]
      show (if sep = sep then (readList read sep fuel
        (listTokens item sep (i + 1) (y :: xs) ++ rest)).bind _ else _) = _
      rw [if_pos rfl, hrec]
      rfl

/-- A condition is read back, up to the semicolon. -/
theorem readWhere_listTokens {item : Nat → β → List SqlToken} {read : SqlReader (Bytes × Nat)}
    {value : Nat → β → Bytes × Nat}
    (hread : ∀ i x ts, read (item i x ++ ts) = some (value i x, ts)) (hitem : ∀ i x, item i x ≠ [])
    {w : String} {xs : List β} (hne : xs ≠ []) (i : Nat) :
    readWhere read (kw w) (kw "WHERE" :: (listTokens item (kw w) i xs ++ [.sym ';'])) =
      some ((xs.zipIdx i).map fun p => value p.2 p.1) := by
  have hfuel := @length_le_listTokens_append _ item (kw w) hitem i xs [.sym ';']
  have hrest : [SqlToken.sym ';'].head? ≠ some (kw w) := fun h => by cases h
  have hlist := readList_listTokens hread hrest hne i hfuel
  rw [readWhere, if_pos rfl, hlist]
  rfl

end Lists

/-! ## Statements from their parts -/

section Parts

variable {table : Bytes} {ts : List SqlToken}

theorem parseSqlTokens_select {cond : List (Bytes × Nat)}
    (h : readWhere readEquation (kw "AND") ts = some cond) :
    parseSqlTokens (kw "SELECT" :: .sym '*' :: kw "FROM" :: .word table :: ts) =
      some (.select table cond) := by
  rw [kw, kw, parseSqlTokens, if_pos ⟨rfl, rfl, rfl⟩, h]

theorem parseSqlTokens_search {likes : List (Bytes × Nat)}
    (hno : readWhere readEquation (kw "AND") ts = none)
    (h : readWhere readLike (kw "OR") ts = some likes) :
    parseSqlTokens (kw "SELECT" :: .sym '*' :: kw "FROM" :: .word table :: ts) =
      some (.search table likes) := by
  rw [kw, kw, parseSqlTokens, if_pos ⟨rfl, rfl, rfl⟩, hno, h]
  rfl

/-- What follows the table of a deletion is no parenthesis. -/
theorem parseSqlTokens_delete {cond : List (Bytes × Nat)} (hts : ∀ c ts', ts ≠ .sym c :: ts')
    (h : readWhere readEquation (kw "AND") ts = some cond) :
    parseSqlTokens (kw "DELETE" :: kw "FROM" :: .word table :: ts) =
      some (.delete table cond) := by
  have hdelete : parseSqlTokens (kw "DELETE" :: kw "FROM" :: .word table :: ts) =
      (readWhere readEquation (kw "AND") ts).map (.delete table) := by
    cases ts with
    | nil => rfl
    | cons t ts =>
      cases t with
      | sym c => exact absurd rfl (hts c ts)
      | word w => rfl
      | param n => rfl
      | text s => rfl
      | concat => rfl
  rw [hdelete, h]
  rfl

/-- What follows the `SET` of an update is no parenthesis. -/
theorem parseSqlTokens_update {set cond : List (Bytes × Nat)} {rest : List SqlToken}
    (hts : ∀ c ts', ts ≠ .sym c :: ts')
    (hset : readList readEquation (.sym ',') ts.length ts = some (set, rest))
    (hcond : readWhere readEquation (kw "AND") rest = some cond) :
    parseSqlTokens (kw "UPDATE" :: .word table :: kw "SET" :: ts) =
      some (.update table set cond) := by
  have hupdate : parseSqlTokens (kw "UPDATE" :: .word table :: kw "SET" :: ts) =
      (readList readEquation (.sym ',') ts.length ts).bind fun r =>
        (readWhere readEquation (kw "AND") r.2).bind fun cond => some (.update table r.1 cond) := by
    cases ts with
    | nil => rfl
    | cons t ts =>
      cases t with
      | sym c => exact absurd rfl (hts c ts)
      | word w => rfl
      | param n => rfl
      | text s => rfl
      | concat => rfl
  rw [hupdate, hset, Option.bind_some, hcond]
  rfl

theorem parseSqlTokens_insert {columns : List Bytes} {params : List Nat} {values : List SqlToken}
    (hcolumns : readList readColumn (.sym ',') ts.length ts =
      some (columns, .sym ')' :: kw "VALUES" :: .sym '(' :: values))
    (hparams : readList readParam (.sym ',') (values.length + 3) values =
      some (params, [.sym ')', .sym ';'])) :
    parseSqlTokens (kw "INSERT" :: kw "INTO" :: .word table :: .sym '(' :: ts) =
      some (.insert table columns params) := by
  rw [kw, kw, parseSqlTokens, if_pos ⟨rfl, rfl, rfl⟩, hcolumns]
  show (readList readParam (.sym ',') (values.length + 3) values).bind _ = _
  rw [hparams]
  rfl

end Parts

end Lib
