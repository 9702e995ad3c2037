import GittyUp.Meme.Refinement
import GittyUp.Meme.Rows
import GittyUp.Meme.Search

/-!
# What a list shows (`meme_list`, `meme_search`)

On a table that stores a map, the list and the search are answered with the memes of
the map, those that match, each of them once and the most viewed first.
-/

namespace GittyUp

open Lib

/-- The memes that are to be listed, each once, the most viewed first. -/
structure Lists (m : MemeMap) (keep : Meme → Prop) (listed : List (Bytes × Meme)) : Prop where
  once : (listed.map Prod.fst).Nodup
  mem : ∀ id meme, (id, meme) ∈ listed ↔ m id = some meme ∧ keep meme
  order : listed.Pairwise fun a b => b.2.views ≤ a.2.views

/-- A meme that a search for the text finds: a caption is `LIKE` the text between `%`
signs. -/
def Matches (IsChar : Bytes → Prop) (text : Bytes) (meme : Meme) : Prop :=
  Like IsChar (around text) meme.texts.topCaption ∨
    Like IsChar (around text) meme.texts.bottomCaption

/-- The two captions of a row are searched. -/
theorem someLike_row (IsChar : Bytes → Prop) (text : Bytes) (r : MemeRecord) :
    ColumnValues.SomeLike IsChar [("top_caption", text), ("bot_caption", text)]
      (memeSchema.cell r.row) ↔
        Like IsChar (around text) r.texts.topCaption ∨
          Like IsChar (around text) r.texts.bottomCaption := by
  have htop : memeSchema.cell r.row "top_caption" = some r.texts.topCaption := rfl
  have hbottom : memeSchema.cell r.row "bot_caption" = some r.texts.bottomCaption := rfl
  simp [ColumnValues.SomeLike, htop, hbottom]

/-- The body that lists some memes. -/
def memesBody (listed : List (Bytes × Meme)) : Bytes :=
  listBody (listed.map fun p => p.2.record p.1)

/-- The meme of a record. -/
def MemeRecord.stored (r : MemeRecord) : Bytes × Meme := (r.id, ⟨r.texts, digitsValue r.views⟩)

theorem Meme.stored_record (meme : Meme) (id : Bytes) : (meme.record id).stored = (id, meme) := by
  rw [Meme.record, MemeRecord.stored, (decimal_spec meme.views).2.2]

namespace Stores

variable {records : Multiset MemeRecord} {m : MemeMap} (h : Stores records m)

include h

/-- A record of the table is that of a meme. -/
theorem record_stored {r : MemeRecord} (hr : r ∈ records) :
    m r.id = some r.stored.2 ∧ r.stored.2.record r.id = r := by
  obtain ⟨meme, hmeme, heq⟩ := (h.mem r).mp hr
  have hstored : r.stored = (r.id, meme) := by
    rw [heq]
    exact meme.stored_record r.id
  rw [hstored]
  exact ⟨hmeme, heq.symm⟩

/-- **The records that are kept, in the order of their views.** -/
theorem lists (keep : Meme → Prop) {sorted : List MemeRecord}
    (hnodup : (sorted.map MemeRecord.id).Nodup)
    (hmem : ∀ r, r ∈ sorted ↔ r ∈ records ∧ keep r.stored.2)
    (hsorted : sorted.Pairwise fun a b => b.stored.2.views ≤ a.stored.2.views) :
    Lists m keep (sorted.map MemeRecord.stored) ∧
      (sorted.map MemeRecord.stored).map (fun p => p.2.record p.1) = sorted := by
  refine ⟨⟨?_, fun id meme => ?_, List.pairwise_map.mpr hsorted⟩, ?_⟩
  · rw [List.map_map]
    exact hnodup
  · rw [List.mem_map]
    constructor
    · rintro ⟨r, hr, heq⟩
      obtain ⟨hrecord, hkeep⟩ := (hmem r).mp hr
      obtain ⟨hm, -⟩ := h.record_stored hrecord
      obtain ⟨rfl, rfl⟩ := Prod.mk.inj (show (r.id, r.stored.2) = (id, meme) from heq)
      exact ⟨hm, hkeep⟩
    · rintro ⟨hm, hkeep⟩
      have hstored := meme.stored_record id
      refine ⟨meme.record id, (hmem _).mpr ⟨(h.mem _).mpr ⟨meme, hm, rfl⟩, ?_⟩, hstored⟩
      rw [hstored]
      exact hkeep
  · rw [List.map_map]
    refine (List.map_congr_left fun r hr => ?_).trans (List.map_id sorted)
    exact (h.record_stored ((hmem r).mp hr).1).2

end Stores

/-! ## Statements that list -/

section Listing

variable {Db : Type} {L : Sqlite Db} (hstd : L.Standard memeSchema)
  (hrel : L.Reliable memeSchema) {db : Db} {records : Multiset MemeRecord}

include hstd hrel

/-- A statement that lists returns rows of the table, and `SELECT` without a
condition all of them. -/
theorem rows_of_listing (h : Holds L db records) {st : MemeStatement}
    (hst : st = .all ∨ ∃ query, st = .search query) : ∃ rs : List MemeRecord,
      (L.exec db st.statement).1.rows = rs.map MemeRecord.row ∧ (rs : Multiset MemeRecord) ≤ records ∧
        (st = .all → (rs : Multiset MemeRecord) = records) ∧
        Holds L (L.exec db st.statement).2 records := by
  have henabled : st.Enabled records := by
    rcases hst with rfl | ⟨query, rfl⟩ <;> trivial
  have hreads : st.Reads := by
    rcases hst with rfl | ⟨query, rfl⟩ <;> trivial
  obtain ⟨hdone, -, hholds⟩ := exec_holds hstd hrel h st henabled
  have heff := hstd.completed db st.statement st.sql st.statement_is hdone
  obtain ⟨rs, hrows, -⟩ := exec_rows hstd h st hreads
  rw [hrows, h] at heff
  rcases hst with rfl | ⟨query, rfl⟩
  · have hall : ((rs : Multiset MemeRecord).map MemeRecord.row) = records.map MemeRecord.row :=
      heff.2.trans (Multiset.filter_eq_self.mpr fun row _ => rfl)
    have hrs := Multiset.map_injective MemeRecord.row_injective hall
    exact ⟨rs, hrows, hrs.le, fun _ => hrs, hholds⟩
  · obtain ⟨-, keep, hkeep, -⟩ := heff
    have hle : ((rs : Multiset MemeRecord).map MemeRecord.row) ≤ records.map MemeRecord.row :=
      (congrArg (· ≤ records.map MemeRecord.row) hkeep).mpr (Multiset.filter_le _ _)
    exact ⟨rs, hrows, (Multiset.map_le_map_iff MemeRecord.row_injective).mp hle,
      (fun hst => by cases hst), hholds⟩

end Listing

/-! ## The two handlers -/

section Run

variable {Db : Type} {L : Sqlite Db} (hstd : L.Standard memeSchema)
  (hrel : L.Reliable memeSchema) {db : Db} {records : Multiset MemeRecord} {m : MemeMap}
  {bound : Nat} (h : Holds L db records) (hm : Stores records m) (hsane : m.Sane bound)
  (hbound : bound < 2 ^ 31)

include hm hsane hbound

/-- What the end of both handlers makes of the rows that are kept. -/
theorem memeArray_lists (keep : Meme → Prop) {rs : List MemeRecord}
    (hle : (rs : Multiset MemeRecord) ≤ records)
    (hmem : ∀ r, r ∈ rs ↔ r ∈ records ∧ keep r.stored.2) :
    ∃ listed, Lists m keep listed ∧
      memeArray ((rs.map MemeRecord.row).map fun row => row.map cStr) =
        .ret (typedResponse 200 (memesBody listed) "application/json") := by
  have hread : ∀ r ∈ rs, r.row.map cStr = r.row ∧
      timesViewed r.row = .ok (r.stored.2.views : Int) := by
    intro r hr
    obtain ⟨hsome, hrecord⟩ := hm.record_stored ((hmem r).mp hr).1
    obtain ⟨hid, htexts, hviews⟩ := hsane _ _ hsome
    have hnumber : stoi (decimal r.stored.2.views) = .ok (r.stored.2.views : Int) :=
      stoi_decimal (by omega)
    constructor
    · rw [← hrecord, row_map_cStr hid, htexts.cStr_eq]
    · have hcount : r.views = decimal r.stored.2.views := congrArg MemeRecord.views hrecord.symm
      exact timesViewed_row (hcount ▸ hnumber)
  have hcStr : (rs.map MemeRecord.row).map (fun row => row.map cStr) = rs.map MemeRecord.row := by
    rw [List.map_map]
    exact List.map_congr_left fun r hr => (hread r hr).1
  obtain ⟨sorted, hperm, hsorted, harray⟩ := memeArray_sorted
    (fun row => digitsValue (row.getD 4 [])) fun r hr => (hread r hr).2
  have hnodup : (sorted.map MemeRecord.id).Nodup :=
    (hperm.map _).nodup_iff.mpr (Multiset.nodup_of_le (Multiset.map_le_map hle) hm.nodup)
  obtain ⟨hlists, hback⟩ := hm.lists keep hnodup
    (fun r => hperm.mem_iff.trans (hmem r)) (hsorted.imp fun hab => Int.ofNat_le.mp hab)
  refine ⟨_, hlists, ?_⟩
  rw [hcStr, harray, memesBody, hback]

include hstd hrel h

/-- **A list shows all memes.** -/
theorem run_memeList : ∃ listed db', memeList.run L.exec db =
    (.ok (typedResponse 200 (memesBody listed) "application/json"), db') ∧
      Lists m (fun _ => True) listed ∧ Holds L db' records := by
  obtain ⟨rs, hrows, hle, hall, hholds⟩ := rows_of_listing hstd hrel h (.inl rfl)
  obtain ⟨listed, hlists, harray⟩ := memeArray_lists hm hsane hbound (fun _ => True) hle
    fun r => by simp [← hall rfl]
  refine ⟨listed, _, ?_, hlists, hholds⟩
  show (memeArray ((L.exec db MemeStatement.all.statement).1.rows.map fun row => row.map cStr)).run
    L.exec _ = _
  rw [hrows, harray]
  rfl

/-- **A search shows the memes that match.** -/
theorem run_memeSearch {IsChar : Bytes → Prop} (hsearch : L.Searches memeSchema IsChar)
    {query text : Bytes} (hdecode : uriDecode query = .ok text) (htext : NulFree text) :
    ∃ listed db', (memeSearch query).run L.exec db =
      (.ok (typedResponse 200 (memesBody listed) "application/json"), db') ∧
        Lists m (Matches IsChar text) listed ∧ Holds L db' records := by
  obtain ⟨rs, hrows, hle, -, hholds⟩ := rows_of_listing hstd hrel h (.inr ⟨text, rfl⟩)
  obtain ⟨keep, hkept, hkeep⟩ := hsearch.search db _ _ _ (MemeStatement.search text).statement_is
  have hvalues : ∀ n ∈ [1, 2], (MemeStatement.search text).statement.value n = text := by
    have hcStr := cStr_of_nulFree htext
    exact List.forall_mem_cons.mpr ⟨hcStr, List.forall_mem_singleton.mpr hcStr⟩
  simp only [List.forall_mem_cons] at hvalues
  have hgiven : given (MemeStatement.search text).statement.value
      [("top_caption", 1), ("bot_caption", 2)] =
        [(lit "top_caption", text), (lit "bot_caption", text)] := by
    simp only [given, List.map_cons, List.map_nil, hvalues]
  obtain ⟨listed, hlists, harray⟩ := memeArray_lists hm hsane hbound (Matches IsChar text) hle
    fun r => by
    have hrow : r.row ∈ (L.exec db (MemeStatement.search text).statement).1.rows ↔ r ∈ rs := by
      rw [hrows, List.mem_map_of_injective MemeRecord.row_injective]
    have hrecord : r.row ∈ L.rows db ↔ r ∈ records := by
      rw [h, Multiset.mem_map_of_injective MemeRecord.row_injective]
    rw [← hrow, ← Multiset.mem_coe, hkept, Multiset.mem_filter, hrecord]
    refine and_congr_right fun hr => ?_
    rw [hkeep _ (hrecord.mpr hr), hgiven]
    exact someLike_row IsChar text r
  refine ⟨listed, _, ?_, hlists, hholds⟩
  unfold memeSearch
  rw [hdecode]
  show (memeArray ((L.exec db (MemeStatement.search text).statement).1.rows.map fun row =>
    row.map cStr)).run L.exec _ = _
  rw [hrows, harray]
  rfl

end Run

end GittyUp
