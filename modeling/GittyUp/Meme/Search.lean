import GittyUp.Lib.SqlLike
import GittyUp.Meme.Statements
import GittyUp.Meme.Store

/-!
# What a search finds (`search_record`)

`search_record` puts the value of every selector between `%` signs and leaves the
rest to `LIKE`. It finds the rows in which a value occurs, unless a wildcard in a
value finds others (`findsSubstrings_iff`): for `%` and `_` in a value nothing is
escaped.
-/

namespace GittyUp

open Lib

variable {Db : Type}

/-- The statement of `search_record`, on a table that has the columns. -/
theorem searchStatement_is {S : Schema} (htable : IsSqlName S.table) {params : QueryParams}
    (h : params.Proper) (hne : params ≠ []) (hcolumns : ∀ p ∈ params, p.1 ∈ S.columns) :
    (searchStatement S.table params).Is S (.search S.table ((params.map Prod.fst).zipIdx 1)) := by
  have hnames : params.map Prod.fst ≠ [] := fun hnil => hne (List.map_eq_nil_iff.mp hnil)
  refine ⟨parseSql_searchText htable h.names hnames, ⟨rfl, fun p hp => ?_⟩, fun n hn => ?_⟩
  · obtain ⟨q, hq, hname⟩ := List.mem_map.mp (List.fst_mem_of_mem_zipIdx hp)
    exact hname ▸ hcolumns q hq
  · have hbound : n ∈ List.range' 1 params.length := map_snd_zipIdx 1 params ▸ hn
    exact map_fst_bindText 1 params ▸ hbound

/-- `search_record` returns exactly the rows in which some selector's value occurs
in its column, whatever the table holds. -/
def FindsSubstrings (L : Sqlite Db) (S : Schema) (params : QueryParams) : Prop :=
  ∀ db, S.IsContent (L.rows db) → ∃ result : List Row,
    ((searchRecord S.table params : MemeProg (List Row)).run L.exec db).1 = .ok result ∧
      (result : Multiset Row) =
        (L.rows db).filter fun row => ColumnValues.SomeOccurs params (S.cell row)

section Search

variable {L : Sqlite Db} {S : Schema} {IsChar : Bytes → Prop} {params : QueryParams}

/-- The rows that `search_record` returns. -/
theorem run_searchRecord (hL : L.Searches S IsChar) (htable : IsSqlName S.table)
    (h : params.Proper) (hne : params ≠ []) (hcolumns : ∀ p ∈ params, p.1 ∈ S.columns) {db : Db}
    (hdb : S.IsContent (L.rows db)) :
    ∃ (keep : Row → Bool) (result : List Row),
      ((searchRecord S.table params : MemeProg (List Row)).run L.exec db).1 = .ok result ∧
        (result : Multiset Row) = (L.rows db).filter (keep ·) ∧
        ∀ row ∈ L.rows db, keep row ↔ ColumnValues.SomeLike IsChar params (S.cell row) := by
  obtain ⟨keep, hreply, hkeep⟩ :=
    hL.search db _ _ _ (searchStatement_is htable h hne hcolumns)
  rw [searchStatement, given_bindText h] at hkeep
  have hrows : (L.exec db (searchStatement S.table params)).1.rows.map (List.map cStr) =
      (L.exec db (searchStatement S.table params)).1.rows := by
    refine (List.map_congr_left fun row hrow => ?_).trans (List.map_id _)
    have hmem : row ∈ (L.rows db).filter (keep ·) := by
      rw [← hreply]
      exact hrow
    have htext := hdb.text row (Multiset.mem_filter.mp hmem).1
    exact (List.map_congr_left fun v hv => cStr_of_nulFree (htext v hv)).trans (List.map_id row)
  exact ⟨keep, _, rfl, (congrArg _ hrows).trans hreply, hkeep⟩

/-- All rows in which a value occurs are found, and no others, exactly when the
wildcards are harmless. -/
theorem findsSubstrings_iff_harmless (hL : L.Searches S IsChar) (htable : IsSqlName S.table)
    (h : params.Proper) (hne : params ≠ []) (hcolumns : ∀ p ∈ params, p.1 ∈ S.columns) :
    FindsSubstrings L S params ↔ ColumnValues.WildcardsHarmless IsChar params := by
  constructor
  · intro hfinds
    refine .of_someLike fun r hr hlike => ?_
    obtain ⟨row, hcontent, hcell⟩ := S.isContent_singleton hr
    obtain ⟨db, hdb⟩ := hL.content {row} hcontent
    rw [← hdb] at hcontent
    obtain ⟨result, hrun, hresult⟩ := hfinds db hcontent
    obtain ⟨keep, result', hrun', hresult', hkeep⟩ :=
      run_searchRecord hL htable h hne hcolumns hcontent
    obtain rfl : result = result' := Except.ok.inj (hrun.symm.trans hrun')
    -- the only row is found
    have hrow : row ∈ L.rows db := hdb ▸ Multiset.mem_singleton_self row
    have hfound : row ∈ (L.rows db).filter (keep ·) := by
      refine Multiset.mem_filter.mpr ⟨hrow, (hkeep row hrow).mpr ?_⟩
      obtain ⟨p, hp, text, htext, hlike⟩ := hlike
      exact ⟨p, hp, text, (hcell p.1 (hcolumns p hp)).trans htext, hlike⟩
    rw [← hresult', hresult] at hfound
    obtain ⟨p, hp, text, htext, hoccurs⟩ := (Multiset.mem_filter.mp hfound).2
    exact ⟨p, hp, text, (hcell p.1 (hcolumns p hp)).symm.trans htext, hoccurs⟩
  · intro hharmless db hdb
    obtain ⟨keep, result, hrun, hresult, hkeep⟩ := run_searchRecord hL htable h hne hcolumns hdb
    refine ⟨result, hrun, hresult.trans (Multiset.filter_congr fun row hrow => ?_)⟩
    rw [hkeep row hrow]
    exact hharmless.someLike_iff hL.ascii fun p hp => hdb.cell hrow (hcolumns p hp)

/-- **A search finds the rows in which a value occurs if and only if its wildcards
are harmless**: always when no value has one, and only then when all columns are
searched for one value. -/
theorem findsSubstrings_iff (hL : L.Searches S IsChar) (htable : IsSqlName S.table)
    (h : params.Proper) (hne : params ≠ []) (hcolumns : ∀ p ∈ params, p.1 ∈ S.columns) :
    (FindsSubstrings L S params ↔ ColumnValues.WildcardsHarmless IsChar params) ∧
      ((∀ p ∈ params, IsLiteral p.2) → FindsSubstrings L S params) ∧
      ∀ value, (∀ p ∈ params, p.2 = value) →
        (FindsSubstrings L S params ↔ IsLiteral value) := by
  have hiff := findsSubstrings_iff_harmless hL htable h hne hcolumns
  refine ⟨hiff, fun hliteral => ?_, fun value hvalue => ?_⟩
  · exact hiff.mpr (ColumnValues.wildcardsHarmless_of_literal hliteral)
  · obtain ⟨p, hp⟩ := List.exists_mem_of_ne_nil params hne
    rw [hiff, ColumnValues.wildcardsHarmless_iff hL.ascii hne hvalue (hvalue p hp ▸ h.values p hp)]

end Search

/-- The two captions are searched for a phrase. -/
theorem findsSubstrings_phrase : FindsSubstrings (reference memeSchema) memeSchema
    [("top_caption", "how are"), ("bot_caption", "how are")] :=
  (findsSubstrings_iff (reference_searches memeSchema) MemeStatement.isSqlName_tableName
    ⟨by decide +kernel, by decide +kernel⟩ (by decide) (by decide)).2.1 (by decide +kernel)

/-- A row with the caption `axb`. -/
def rowAxb : Row := ["1", "a.jpg", "axb", "b", "0"]

/-- A search of both captions for `a_b` finds it. -/
theorem not_findsSubstrings_underscore :
    ((searchRecord tableName [("top_caption", "a_b"), ("bot_caption", "a_b")] :
        MemeProg (List Row)).run (reference memeSchema).exec [rowAxb]).1 = .ok [rowAxb] ∧
      ¬ ColumnValues.SomeOccurs [("top_caption", "a_b"), ("bot_caption", "a_b")]
        (memeSchema.cell rowAxb) ∧
      ¬ FindsSubstrings (reference memeSchema) memeSchema
        [("top_caption", "a_b"), ("bot_caption", "a_b")] := by
  have hrun : ((searchRecord tableName [("top_caption", "a_b"), ("bot_caption", "a_b")] :
      MemeProg (List Row)).run (reference memeSchema).exec [rowAxb]).1 = .ok [rowAxb] := by
    decide +kernel
  have hno : ¬ ColumnValues.SomeOccurs [("top_caption", "a_b"), ("bot_caption", "a_b")]
      (memeSchema.cell rowAxb) := by decide +kernel
  refine ⟨hrun, hno, fun h => ?_⟩
  have hcontent : memeSchema.IsContent ((reference memeSchema).rows [rowAxb]) :=
    ⟨by decide +kernel, by decide +kernel, Multiset.nodup_singleton _⟩
  obtain ⟨result, hresult, hrows⟩ := h [rowAxb] hcontent
  obtain rfl := Except.ok.inj (hrun.symm.trans hresult)
  have hmem : rowAxb ∈ (([rowAxb] : List Row) : Multiset Row) := List.mem_singleton_self _
  rw [hrows] at hmem
  exact hno (Multiset.mem_filter.mp hmem).2

end GittyUp
