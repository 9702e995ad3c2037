import GittyUp.Meme.Interleaving
import GittyUp.Meme.Popularity
import GittyUp.Meme.Refinement
import Mathlib.Data.Set.Card
import Mathlib.Data.Set.List

/-!
# What every row of the meme table is like

Rows are written from checked input, from drawn UUIDs and from view counts that
were read before. `MemeRecord.Sound` is what readers rely on. The invariant is
carried for any family of view counts that is closed under counting
(`ViewTexts`), through every interleaving of statements: `soundTable_of_reachable`.
For fewer than `2 ^ 31 - 1` GETs the counts are the decimal numerals:
`rows_sound`.
-/

namespace GittyUp

open Lib Regex

/-! ## Ids -/

theorem accepts_times_char {p : Byte → Bool} {n : Nat} {pre w post : Bytes} :
    (times n (.char p)).Accepts pre w post ↔ w.length = n ∧ ∀ c ∈ w, p c = true := by
  induction n generalizing pre w with
  | zero =>
    constructor
    · rintro rfl
      simp
    · rintro ⟨h, -⟩
      exact List.length_eq_zero_iff.mp h
  | succ n ih =>
    constructor
    · rintro ⟨_, v, rfl, ⟨c, rfl, hc⟩, hv⟩
      obtain ⟨hlen, hall⟩ := ih.mp hv
      exact ⟨by simp [hlen], List.forall_mem_cons.mpr ⟨hc, hall⟩⟩
    · rintro ⟨hlen, hall⟩
      obtain ⟨c, v, rfl⟩ := List.exists_cons_of_length_eq_add_one hlen
      obtain ⟨hc, hv⟩ := List.forall_mem_cons.mp hall
      exact ⟨[c], v, rfl, ⟨c, rfl, hc⟩, ih.mpr ⟨by simpa using hlen, hv⟩⟩

/-- Hexadecimal digits in groups of 8, 4, 4, 4 and 12 are accepted. -/
theorem checkId_of_groups {a b c d e : Bytes}
    (hlen : a.length = 8 ∧ b.length = 4 ∧ c.length = 4 ∧ d.length = 4 ∧ e.length = 12)
    (hhex : ∀ s ∈ [a, b, c, d, e], ∀ x ∈ s, IsHexDigit x) :
    checkId (a ++ (lit "-" ++ (b ++ (lit "-" ++ (c ++ (lit "-" ++ (d ++ (lit "-" ++ e)))))))) =
      true := by
  have hgroup : ∀ {n : Nat} {s pre post : Bytes}, s.length = n → (∀ x ∈ s, IsHexDigit x) →
      (times n hexClass).Accepts pre s post := fun hn hs =>
    accepts_times_char.mpr ⟨hn, fun x hx => decide_eq_true (hs x hx)⟩
  simp only [List.forall_mem_cons] at hhex
  obtain ⟨ha, hb, hc, hd, he, -⟩ := hhex
  refine search_isSome_iff.mpr ⟨[], a ++ (lit "-" ++ (b ++ (lit "-" ++ (c ++ (lit "-" ++
    (d ++ (lit "-" ++ (e ++ [])))))))), [], by simp, [], _, rfl, ⟨rfl, rfl⟩,
    a, _, rfl, hgroup hlen.1 ha, _, _, rfl, accepts_literal.mpr rfl,
    b, _, rfl, hgroup hlen.2.1 hb, _, _, rfl, accepts_literal.mpr rfl,
    c, _, rfl, hgroup hlen.2.2.1 hc, _, _, rfl, accepts_literal.mpr rfl,
    d, _, rfl, hgroup hlen.2.2.2.1 hd, _, _, rfl, accepts_literal.mpr rfl,
    e, _, rfl, hgroup hlen.2.2.2.2 he, [], [], rfl, ⟨rfl, rfl⟩, rfl⟩

/-- **A UUID is an id that `check_id` accepts.** -/
theorem IsUuid.checkId {s : Bytes} (h : IsUuid s) : checkId s = true := by
  obtain ⟨hlen, hall⟩ := h
  have hget : ∀ i (c : Byte), s[i]? = some c → if i = 8 ∨ i = 13 ∨ i = 18 ∨ i = 23 then c = '-'
      else IsDigit c ∨ ('a' ≤ c ∧ c ≤ 'f') :=
    fun i c hc => hall (c, i) (List.mk_mem_zipIdx_iff_getElem?.mpr hc)
  have hhex : ∀ i n, (∀ j < n, ¬ (i + j = 8 ∨ i + j = 13 ∨ i + j = 18 ∨ i + j = 23)) →
      ∀ c ∈ (s.drop i).take n, IsHexDigit c := by
    intro i n hpos c hc
    obtain ⟨j, hj⟩ := List.mem_iff_getElem?.mp hc
    rw [List.getElem?_take] at hj
    split_ifs at hj with hjn
    rw [List.getElem?_drop] at hj
    have hlower := hget _ _ hj
    rw [if_neg (hpos j hjn)] at hlower
    exact hlower.elim .inl fun h => .inr (.inl h)
  -- a group, and the hyphen behind it
  have hcut : ∀ i n, i + n < 36 → (i + n = 8 ∨ i + n = 13 ∨ i + n = 18 ∨ i + n = 23) →
      s.drop i = (s.drop i).take n ++ (lit "-" ++ s.drop (i + n + 1)) := by
    intro i n hlt hpos
    have hi : i + n < s.length := by omega
    have hhyphen := hget (i + n) s[i + n] (List.getElem?_eq_getElem hi)
    rw [if_pos hpos] at hhyphen
    calc s.drop i = (s.drop i).take n ++ s.drop (i + n) := by
          rw [← List.drop_drop, List.take_append_drop]
      _ = _ := by
          rw [List.drop_eq_getElem_cons hi, hhyphen]
          rfl
  have hs : s = s.take 8 ++ (lit "-" ++ ((s.drop 9).take 4 ++ (lit "-" ++ ((s.drop 14).take 4 ++
      (lit "-" ++ ((s.drop 19).take 4 ++ (lit "-" ++ (s.drop 24).take 12))))))) := by
    have hlast : (s.drop 24).take 12 = s.drop 24 := List.take_of_length_le (by simp [hlen])
    rw [hlast, ← hcut 19 4 (by decide) (by decide), ← hcut 14 4 (by decide) (by decide),
      ← hcut 9 4 (by decide) (by decide)]
    exact hcut 0 8 (by decide) (by decide)
  rw [hs]
  refine checkId_of_groups (by simp [hlen]) ?_
  simp only [List.forall_mem_cons]
  exact ⟨hhex 0 8 (by decide), hhex 9 4 (by decide), hhex 14 4 (by decide), hhex 19 4 (by decide),
    hhex 24 12 (by decide), by simp⟩

/-! ## The rows -/

/-- A record as its readers rely on it: its number of views is one of `V`. -/
structure MemeRecord.Sound (V : Bytes → Prop) (r : MemeRecord) : Prop where
  id : checkId r.id = true
  texts : r.texts.Proper
  views : V r.views

theorem MemeRecord.Sound.mono {V V' : Bytes → Prop} (hV : ∀ t, V t → V' t) {r : MemeRecord}
    (h : r.Sound V) : r.Sound V' :=
  ⟨h.id, h.texts, hV _ h.views⟩

/-- A statement that writes checked values. -/
def MemeStatement.Writes (V : Bytes → Prop) : MemeStatement → Prop
  | .insert id texts => checkId id = true ∧ texts.Proper
  | .replace _ texts => texts.Proper
  | .setViews _ views => NulFree views ∧ V views
  | .remove _ | .byId _ | .all | .search _ => True

/-- **A completed statement keeps rows sound.** -/
theorem MemeStatement.Writes.apply {V : Bytes → Prop} (hzero : V "0") {st : MemeStatement}
    (hst : st.Writes V) {records : Multiset MemeRecord} (h : ∀ r ∈ records, r.Sound V) :
    ∀ r ∈ st.apply records, r.Sound V := by
  cases st with
  | insert id texts =>
    obtain ⟨hid, htexts⟩ := hst
    refine Multiset.forall_mem_cons.mpr ⟨?_, h⟩
    rw [cStr_of_nulFree (nulFree_of_checkId hid), htexts.cStr_eq]
    exact ⟨hid, htexts, hzero⟩
  | replace id texts =>
    intro r' hr'
    obtain ⟨r, hr, rfl⟩ := Multiset.mem_map.mp hr'
    have hsound := h r hr
    split_ifs
    · exact ⟨hsound.id, by rw [MemeTexts.Proper.cStr_eq hst]; exact hst, hsound.views⟩
    · exact hsound
  | remove id => exact fun r hr => h r (Multiset.mem_filter.mp hr).1
  | setViews id views =>
    intro r' hr'
    obtain ⟨r, hr, rfl⟩ := Multiset.mem_map.mp hr'
    have hsound := h r hr
    split_ifs
    · exact ⟨hsound.id, hsound.texts, by rw [cStr_of_nulFree hst.1]; exact hst.2⟩
    · exact hsound
  | byId id => exact h
  | all => exact h
  | search query => exact h

/-- A statement that returns rows. -/
def MemeStatement.Reads : MemeStatement → Prop
  | .byId _ | .all | .search _ => True
  | .insert _ _ | .replace _ _ | .remove _ | .setViews _ _ => False

section Exec

variable {Db : Type} {L : Sqlite Db} (hstd : L.Standard memeSchema) {db : Db}
  {records : Multiset MemeRecord} (h : Holds L db records)

include hstd h

/-- A statement keeps rows sound, whether it completes or fails. -/
theorem exec_sound {V : Bytes → Prop} (hzero : V "0") (st : MemeStatement) (hst : st.Writes V)
    (hrecords : ∀ r ∈ records, r.Sound V) :
    ∃ records', Holds L (L.exec db st.statement).2 records' ∧ ∀ r ∈ records', r.Sound V := by
  obtain ⟨hcompleted, hfailed⟩ := exec_statement hstd h st
  cases hdone : (L.exec db st.statement).1.done with
  | true => exact ⟨_, (hcompleted hdone).2.2, hst.apply hzero hrecords⟩
  | false => exact ⟨records, hfailed hdone, hrecords⟩

/-- The rows that a statement returns are rows of the table. -/
theorem exec_rows (st : MemeStatement) (hst : st.Reads) :
    ∃ rs : List MemeRecord, (L.exec db st.statement).1.rows = rs.map MemeRecord.row ∧
      ∀ r ∈ rs, r ∈ records := by
  have hmem : ∀ row ∈ (L.exec db st.statement).1.rows, row ∈ L.rows db := by
    cases hdone : (L.exec db st.statement).1.done with
    | false => exact (hstd.failed db st.statement st.sql st.statement_is hdone).2
    | true =>
      have heff := hstd.completed db st.statement st.sql st.statement_is hdone
      intro row hrow
      rw [← Multiset.mem_coe] at hrow
      cases st with
      | byId id =>
        rw [heff.2] at hrow
        exact (Multiset.mem_filter.mp hrow).1
      | all =>
        rw [heff.2] at hrow
        exact (Multiset.mem_filter.mp hrow).1
      | search query =>
        obtain ⟨-, keep, hkeep, -⟩ := heff
        rw [hkeep] at hrow
        exact (Multiset.mem_filter.mp hrow).1
      | insert id texts => contradiction
      | replace id texts => contradiction
      | remove id => contradiction
      | setViews id views => contradiction
  rw [h] at hmem
  obtain ⟨rs, hrs⟩ : (L.exec db st.statement).1.rows ∈ Set.range (List.map MemeRecord.row) := by
    rw [Set.range_list_map]
    intro row hrow
    obtain ⟨r, -, hr⟩ := Multiset.mem_map.mp (hmem row hrow)
    exact ⟨r, hr⟩
  refine ⟨rs, hrs.symm, fun r hr => ?_⟩
  rw [← Multiset.mem_map_of_injective MemeRecord.row_injective]
  exact hmem _ (hrs ▸ List.mem_map_of_mem hr)

end Exec

/-! ## Reading rows -/

/-- A record whose row can be read. -/
structure MemeRecord.Readable (r : MemeRecord) : Prop where
  id : NulFree r.id
  texts : r.texts.Proper
  views : NulFree r.views
  number : ∃ z, stoi r.views = .ok z

theorem MemeRecord.Readable.row_map_cStr {r : MemeRecord} (h : r.Readable) :
    r.row.map cStr = r.row := by
  have htexts := congrArg (fun t => MemeRecord.row ⟨r.id, t, r.views⟩) h.texts.cStr_eq
  have hid := cStr_of_nulFree h.id
  have hviews := cStr_of_nulFree h.views
  simp only [MemeRecord.row, MemeTexts.cStr] at htexts
  simpa [MemeRecord.row, hid, hviews] using htexts

/-- The entry of a record in a list of memes. -/
def MemeRecord.entry (r : MemeRecord) : Bytes :=
  r.id ++ lit ":" ++ r.views ++ lit ":" ++ r.texts.memeTemplate ++ lit ":" ++
    r.texts.topCaption ++ lit ":" ++ r.texts.bottomCaption

/-- The body that lists some records. -/
def listBody (rs : List MemeRecord) : Bytes :=
  lit "[" ++ List.intercalate (lit ",") (rs.map fun r => lit "\"" ++ r.entry ++ lit "\"") ++ lit "]"

theorem rowEntry_row (r : MemeRecord) : rowEntry r.row = lit "\"" ++ r.entry ++ lit "\"" := by
  simp [rowEntry, MemeRecord.row, MemeRecord.entry]

/-- Records whose counts can be read are listed by these counts, greatest first. -/
theorem memeArray_sorted (count : Row → Int) {rs : List MemeRecord}
    (h : ∀ r ∈ rs, timesViewed r.row = .ok (count r.row)) :
    ∃ sorted : List MemeRecord, sorted.Perm rs ∧
      sorted.Pairwise (fun a b => count b.row ≤ count a.row) ∧
      memeArray (rs.map MemeRecord.row) =
        .ret (typedResponse 200 (listBody sorted) "application/json") := by
  have hcount : ∀ row ∈ rs.map MemeRecord.row, timesViewed row = .ok (count row) := by
    intro row hrow
    obtain ⟨r, hr, rfl⟩ := List.mem_map.mp hrow
    exact h r hr
  have hsort : (rs.mergeSort fun a b => count a.row ≤ count b.row).map MemeRecord.row =
      (rs.map MemeRecord.row).mergeSort fun a b => count a ≤ count b :=
    List.map_mergeSort fun _ _ _ _ => rfl
  have horder := (popularityOrder_reverse_mergeSort count (rs.map MemeRecord.row)).order
  rw [← hsort, ← List.map_reverse, List.pairwise_map] at horder
  refine ⟨(rs.mergeSort fun a b => count a.row ≤ count b.row).reverse,
    (List.reverse_perm _).trans (List.mergeSort_perm _ _), horder, ?_⟩
  rw [memeArray_eq hcount, ← hsort, ← List.map_reverse]
  simp only [arrayBody, listBody, List.map_map, Function.comp_def, rowEntry_row]
  rfl

/-- **The rows of a table can be listed.** -/
theorem memeArray_rows {rs : List MemeRecord} (h : ∀ r ∈ rs, r.Readable) :
    ∃ sorted : List MemeRecord, sorted.Perm rs ∧ memeArray (rs.map MemeRecord.row) =
      .ret (typedResponse 200 (listBody sorted) "application/json") := by
  obtain ⟨sorted, hperm, -, harray⟩ := memeArray_sorted
    (fun row => (timesViewed row).toOption.getD 0) fun r hr => by
      obtain ⟨z, hz⟩ := (h r hr).number
      rw [timesViewed_row hz]
      rfl
  exact ⟨sorted, hperm, harray⟩

/-- The response to a GET of a meme that is not there. -/
def notFoundResponse : Response :=
  typedResponse 404 "The requested file could not be found!\n" "text/plain"

/-- What a GET does with the rows that were selected for its id. -/
theorem countView_rows {rs : List MemeRecord} (h : ∀ r ∈ rs, r.Readable) :
    countView (rs.map MemeRecord.row) = .ret notFoundResponse ∨
      ∃ r z, rs = [r] ∧ stoi r.views = .ok z ∧ countView (rs.map MemeRecord.row) =
        .call (MemeStatement.setViews r.id (intText (z + 1))).statement fun _ =>
          .ret (typedResponse 200 (memeBody r.texts) "application/json") := by
  match rs with
  | [] => exact .inl rfl
  | [r] =>
    have hr := h r List.mem_cons_self
    obtain ⟨z, hz⟩ := hr.number
    refine .inr ⟨r, z, rfl, hz, ?_⟩
    rw [List.map_singleton, countView_row hz, memeResponse_proper hr.texts]
  | _ :: _ :: _ => exact .inl rfl

/-! ## View counts -/

/-- A family of texts for view counts, by the number of GETs that have written
one: as far as the limit, they can be read, and counting leads to the next. -/
structure ViewTexts (V : Nat → Bytes → Prop) (limit : ℕ∞) : Prop where
  zero : V 0 "0"
  mono : ∀ m t, V m t → V (m + 1) t
  nulFree : ∀ m t, V m t → NulFree t
  number : ∀ (m : Nat) t, (m : ℕ∞) ≤ limit → V m t →
    ∃ z, stoi t = .ok z ∧ ((m + 1 : Nat) ≤ limit → V (m + 1) (intText (z + 1)))

namespace ViewTexts

variable {V : Nat → Bytes → Prop} {limit : ℕ∞} (hV : ViewTexts V limit) {m : Nat}

include hV

theorem zero_le : V m "0" := by
  induction m with
  | zero => exact hV.zero
  | succ m ih => exact hV.mono m _ ih

/-- Sound records can be read. -/
theorem readable (hm : (m : ℕ∞) ≤ limit) {r : MemeRecord} (h : r.Sound (V m)) : r.Readable := by
  obtain ⟨z, hz, -⟩ := hV.number m r.views hm h.views
  exact ⟨nulFree_of_checkId h.id, h.texts, hV.nulFree m _ h.views, z, hz⟩

end ViewTexts

/-- The decimal numerals up to the number of GETs that have written one. -/
theorem viewTexts_decimal :
    ViewTexts (fun m t => ∃ n ≤ m, t = decimal n) ((2 ^ 31 - 2 : Nat) : ℕ∞) := by
  refine ⟨⟨0, Nat.le_refl 0, by decide⟩, ?_, ?_, ?_⟩
  · rintro m _ ⟨n, hn, rfl⟩
    exact ⟨n, Nat.le_succ_of_le hn, rfl⟩
  · rintro m _ ⟨n, -, rfl⟩
    exact nulFree_decimal n
  · rintro m _ hm ⟨n, hn, rfl⟩
    have hbound : m ≤ 2 ^ 31 - 2 := Nat.cast_le.mp hm
    refine ⟨n, stoi_decimal (by omega), fun _ => ⟨n + 1, Nat.succ_le_succ hn, ?_⟩⟩
    rw [← intText_ofNat (by omega), Int.natCast_succ]

/-! ## Every interleaving -/

section Interleaving

variable {ι : Type} {V : Nat → Bytes → Prop} {limit : ℕ∞} {Db : Type} {L : Sqlite Db}
  {arrivals : ι → Arrival}

/-- The threads that serve a GET. -/
def gets (arrivals : ι → Arrival) : Set ι := {i | (arrivals i).request.method = "GET"}

/-- The table, when the GETs in `g` have written a view count. -/
structure SoundTable (L : Sqlite Db) (V : Nat → Bytes → Prop) (arrivals : ι → Arrival)
    (g : Finset ι) (db : Db) : Prop where
  writers : ↑g ⊆ gets arrivals
  rows : ∃ records, Holds L db records ∧ ∀ r ∈ records, r.Sound (V g.card)

/-- What a thread has left to do, when the GETs in `g` have written a view
count. -/
inductive ThreadAt (V : Nat → Bytes → Prop) (arrivals : ι → Arrival) (g : Finset ι) (i : ι) :
    MemeProg Response → Prop
  | waiting : i ∉ g → ThreadAt V arrivals g i (arrivals i).handle
  | counting {id views : Bytes} {response : Response} : i ∉ g → i ∈ gets arrivals →
      NulFree views → V (g.card + 1) views → EndsWell (.ret response) →
      ThreadAt V arrivals g i
        (.call (MemeStatement.setViews id views).statement fun _ => .ret response)
  | ended {p : MemeProg Response} : EndsWell p → ThreadAt V arrivals g i p

theorem card_le_of_gets {g : Finset ι} (hlimit : (gets arrivals).encard ≤ limit)
    (hg : ↑g ⊆ gets arrivals) : (g.card : ℕ∞) ≤ limit := by
  rw [← Set.encard_coe_eq_coe_finsetCard]
  exact (Set.encard_le_encard hg).trans hlimit

section Step

variable (hV : ViewTexts V limit) (hstd : L.Standard memeSchema) {g : Finset ι} {db : Db} {i : ι}

include hV hstd

theorem SoundTable.exec (h : SoundTable L V arrivals g db) (st : MemeStatement)
    (hst : st.Writes (V g.card)) : SoundTable L V arrivals g (L.exec db st.statement).2 := by
  obtain ⟨records, hholds, hsound⟩ := h.rows
  exact ⟨h.writers, exec_sound hstd hholds hV.zero_le st hst hsound⟩

variable (hlimit : (gets arrivals).encard ≤ limit)

include hlimit

/-- What a statement returns are rows that can be read. -/
theorem SoundTable.rows_exec (h : SoundTable L V arrivals g db) (st : MemeStatement)
    (hst : st.Reads) : ∃ rs : List MemeRecord, (∀ r ∈ rs, r.Sound (V g.card) ∧ r.Readable) ∧
      (L.exec db st.statement).1.rows = rs.map MemeRecord.row ∧
      (L.exec db st.statement).1.rows.map (fun row => row.map cStr) = rs.map MemeRecord.row := by
  obtain ⟨records, hholds, hsound⟩ := h.rows
  obtain ⟨rs, hrows, hmem⟩ := exec_rows hstd hholds st hst
  have hread : ∀ r ∈ rs, r.Readable :=
    fun r hr => hV.readable (card_le_of_gets hlimit h.writers) (hsound r (hmem r hr))
  refine ⟨rs, fun r hr => ⟨hsound r (hmem r hr), hread r hr⟩, hrows, ?_⟩
  rw [hrows, List.map_map]
  exact List.map_congr_left fun r hr => (hread r hr).row_map_cStr

/-- A listing ends with the rows that were selected. -/
theorem ThreadAt.of_list (h : SoundTable L V arrivals g db) (st : MemeStatement)
    (hst : st.Reads) : ThreadAt V arrivals g i
      (memeArray ((L.exec db st.statement).1.rows.map fun row => row.map cStr)) := by
  obtain ⟨rs, hrs, -, hrows⟩ := h.rows_exec hV hstd hlimit st hst
  obtain ⟨sorted, -, harray⟩ := memeArray_rows fun r hr => (hrs r hr).2
  rw [hrows, harray]
  exact .ended (endsWell_typedResponse (.inl (by decide)))

variable [DecidableEq ι]

/-- A GET of a meme has a view count to write back, or ends. -/
theorem ThreadAt.of_countView (h : SoundTable L V arrivals g db) (hi : i ∉ g)
    (hget : i ∈ gets arrivals) (id : Bytes) : ThreadAt V arrivals g i
      (countView ((L.exec db (MemeStatement.byId id).statement).1.rows.map
        fun row => row.map cStr)) := by
  obtain ⟨rs, hrs, -, hrows⟩ := h.rows_exec hV hstd hlimit (.byId id) trivial
  rw [hrows]
  rcases countView_rows fun r hr => (hrs r hr).2 with hnone | ⟨r, z, rfl, hz, hcount⟩
  · rw [hnone]
    exact .ended (endsWell_typedResponse (.inl (by decide)))
  · -- the count that is written back is in the family, as this GET has not written one
    have hinsert : ((g.card + 1 : Nat) : ℕ∞) ≤ limit := by
      rw [← Finset.card_insert_of_notMem hi]
      refine card_le_of_gets hlimit ?_
      rw [Finset.coe_insert]
      exact Set.insert_subset hget h.writers
    obtain ⟨z', hz', hnext⟩ := hV.number g.card r.views (card_le_of_gets hlimit h.writers)
      (hrs r List.mem_cons_self).1.views
    obtain rfl := Except.ok.inj (hz.symm.trans hz')
    have hviews := hnext hinsert
    rw [hcount]
    exact .counting hi hget (hV.nulFree _ _ hviews) hviews
      (endsWell_typedResponse (.inl (by decide)))

/-- The first statement of a request. -/
theorem ThreadAt.first_step (huuid : IsUuid (arrivals i).uuid)
    (h : SoundTable L V arrivals g db) (hi : i ∉ g) {q : SqlStatement}
    {k : SqlReply → MemeProg Response} (hcall : (arrivals i).handle = .call q k) :
    SoundTable L V arrivals g (L.exec db q).2 ∧ ThreadAt V arrivals g i (k (L.exec db q).1) := by
  rcases handleRequest_command (arrivals i).uuid (arrivals i).request with hprogram | ⟨-, hlists⟩
  · change _ = some (arrivals i).handle at hprogram
    rw [hcall] at hprogram
    have hcases := command_cases (arrivals i).uuid (arrivals i).request
    generalize command (arrivals i).uuid (arrivals i).request = asked at hcases hprogram
    cases hcases with
    | add _ haccepted =>
      obtain ⟨rfl, rfl⟩ := Prog.call.inj (Option.some.inj hprogram)
      exact ⟨h.exec hV hstd (.insert _ _) ⟨huuid.checkId, acceptedTexts_proper haccepted⟩,
        .ended (endsWell_reply _ _).1⟩
    | replace _ _ haccepted =>
      obtain ⟨rfl, rfl⟩ := Prog.call.inj (Option.some.inj hprogram)
      exact ⟨h.exec hV hstd (.replace _ _) (acceptedTexts_proper haccepted),
        .ended (endsWell_reply _ _).2.1⟩
    | remove =>
      obtain ⟨rfl, rfl⟩ := Prog.call.inj (Option.some.inj hprogram)
      exact ⟨h.exec hV hstd (.remove _) trivial, .ended (endsWell_reply _ _).2.2⟩
    | view hget =>
      obtain ⟨rfl, rfl⟩ := Prog.call.inj (Option.some.inj hprogram)
      exact ⟨h.exec hV hstd (.byId _) trivial, .of_countView hV hstd hlimit h hi hget _⟩
    | other => contradiction
  · change OnlyLists (arrivals i).handle at hlists
    rw [hcall] at hlists
    cases hlists with
    | ended h => cases h
    | list => exact ⟨h.exec hV hstd .all trivial, .of_list hV hstd hlimit h .all trivial⟩
    | search query =>
      exact ⟨h.exec hV hstd (.search query) trivial,
        .of_list hV hstd hlimit h (.search query) trivial⟩

/-- **A statement keeps the table sound**, and every thread where it should be. -/
theorem ThreadAt.step (huuid : IsUuid (arrivals i).uuid) (h : SoundTable L V arrivals g db)
    {q : SqlStatement} {k : SqlReply → MemeProg Response}
    (hthread : ThreadAt V arrivals g i (.call q k)) :
    ∃ g', SoundTable L V arrivals g' (L.exec db q).2 ∧
      ThreadAt V arrivals g' i (k (L.exec db q).1) ∧
      ∀ j p, j ≠ i → ThreadAt V arrivals g j p → ThreadAt V arrivals g' j p := by
  generalize hp : Prog.call q k = p at hthread
  cases hthread with
  | waiting hi =>
    obtain ⟨htable, hself⟩ := ThreadAt.first_step hV hstd hlimit huuid h hi hp.symm
    exact ⟨g, htable, hself, fun _ _ _ hj => hj⟩
  | @counting id views response hi hget hnul hviews hend =>
    obtain ⟨rfl, rfl⟩ := Prog.call.inj hp
    have hcard : (insert i g).card = g.card + 1 := Finset.card_insert_of_notMem hi
    refine ⟨insert i g, ⟨?_, ?_⟩, .ended hend, fun j p hj hthread => ?_⟩
    · rw [Finset.coe_insert]
      exact Set.insert_subset hget h.writers
    · obtain ⟨records, hholds, hsound⟩ := h.rows
      rw [hcard]
      exact exec_sound hstd hholds hV.zero_le (.setViews id views) ⟨hnul, hviews⟩
        fun r hr => (hsound r hr).mono fun t => hV.mono _ t
    · -- another thread has not written either, and may write what it could before
      have hnot : ∀ {j}, j ≠ i → j ∉ g → j ∉ insert i g := fun hji hj hmem =>
        (Finset.mem_insert.mp hmem).elim hji hj
      cases hthread with
      | waiting hj' => exact .waiting (hnot hj hj')
      | counting hj' hget' hnul' hviews' hend' =>
        refine .counting (hnot hj hj') hget' hnul' ?_ hend'
        rw [hcard]
        exact hV.mono _ _ hviews'
      | ended hend' => exact .ended hend'
  | ended hend =>
    subst hp
    cases hend

/-- **The table stays sound**, and no thread is led astray by it. -/
theorem soundTable_of_reachable (hempty : L.rows db = 0)
    (huuids : ∀ i, IsUuid (arrivals i).uuid)
    {s : Pool Abort SqlStatement SqlReply Response Db ι}
    (h : Reachable (Pool.Step L.exec) (serving db arrivals) s) :
    ∃ g, SoundTable L V arrivals g s.shared ∧ ∀ i, ThreadAt V arrivals g i (s.threads i) := by
  have hinit : SoundTable L V arrivals ∅ db := ⟨by simp, 0, hempty, by simp⟩
  refine Pool.assertions h (A := ThreadAt V arrivals) hinit
    (fun i => .waiting (Finset.notMem_empty i)) ?_
  intro g db i q k htable hthread
  exact hthread.step hV hstd hlimit (huuids i) htable

end Step

/-- A thread that has ended has answered, though not that a meme is corrupted, or
has failed to decode its input. -/
def Faultless : MemeProg Response → Prop
  | .ret response => response ≠ corruptedResponse
  | .abort e => e = .exception (.runtimeError "stream decode failure")
  | .call _ _ => True

theorem EndsWell.faultless {p : MemeProg Response} (h : EndsWell p) : Faultless p := by
  cases h with
  | answered h => exact h
  | thrown => rfl

theorem faultless_handle (r : Arrival) : Faultless r.handle := by
  rcases handleRequest_command r.uuid r.request with hprogram | ⟨-, hlists⟩
  · change r.command.program = some r.handle at hprogram
    cases hcommand : r.command with
    | other =>
      rw [hcommand] at hprogram
      contradiction
    | _ =>
      rw [hcommand] at hprogram
      rw [← Option.some.inj hprogram]
      trivial
  · change OnlyLists r.handle at hlists
    generalize r.handle = p at hlists ⊢
    cases hlists with
    | ended hend => exact hend.faultless
    | list => trivial
    | search query => trivial

theorem ThreadAt.faultless {g : Finset ι} {i : ι} {p : MemeProg Response}
    (h : ThreadAt V arrivals g i p) : Faultless p := by
  cases h with
  | waiting => exact faultless_handle _
  | counting => trivial
  | ended hend => exact hend.faultless

/-- **The row invariant**: with fewer than `2 ^ 31 - 1` GETs, in whatever order
the statements are executed, every row has an id, proper texts, and a number of
views in decimal that does not overflow. Hence no thread runs into an exception
of `stoi`, past the end of a row, or into a meme that is corrupted. -/
theorem rows_sound [DecidableEq ι] (hstd : L.Standard memeSchema) {db : Db}
    (hempty : L.rows db = 0) (huuids : ∀ i, IsUuid (arrivals i).uuid)
    (hgets : (gets arrivals).encard < ((2 ^ 31 - 1 : Nat) : ℕ∞))
    {s : Pool Abort SqlStatement SqlReply Response Db ι}
    (h : Reachable (Pool.Step L.exec) (serving db arrivals) s) :
    (∃ records, Holds L s.shared records ∧
        ∀ r ∈ records, r.Sound fun views => ∃ n ≤ 2 ^ 31 - 2, views = decimal n) ∧
      ∀ i, Faultless (s.threads i) := by
  have hlimit : (gets arrivals).encard ≤ ((2 ^ 31 - 2 : Nat) : ℕ∞) :=
    ENat.lt_natCast_add_one_iff.mp hgets
  obtain ⟨g, htable, hthreads⟩ :=
    soundTable_of_reachable viewTexts_decimal hstd hlimit hempty huuids h
  refine ⟨?_, fun i => (hthreads i).faultless⟩
  obtain ⟨records, hholds, hsound⟩ := htable.rows
  have hcard : g.card ≤ 2 ^ 31 - 2 := Nat.cast_le.mp (card_le_of_gets hlimit htable.writers)
  exact ⟨records, hholds, fun r hr => (hsound r hr).mono fun t ⟨n, hn, ht⟩ =>
    ⟨n, hn.trans hcard, ht⟩⟩

end Interleaving

/-- A POST, a GET of the new meme, and a GET of the list. -/
theorem rows_sound_post_get_list :
    let arrivals : Fin 3 → Arrival :=
      ![⟨"00000000-0000-4000-8000-000000000001", ⟨"", "POST", "/memes/", ∅,
          "memeSelect=a.jpg&topCaption=b&bottomCaption=c", ∅, true⟩⟩,
        ⟨"00000000-0000-4000-8000-000000000002", ⟨"", "GET",
          "/memes/00000000-0000-4000-8000-000000000001", ∅, "", ∅, true⟩⟩,
        ⟨"00000000-0000-4000-8000-000000000003", ⟨"", "GET", "/memes/", ∅, "", ∅, true⟩⟩]
    ∃ s, (serving [] arrivals).play (reference memeSchema).exec [0, 1, 2, 1] = some s ∧
      (∃ records, Holds (reference memeSchema) s.shared records ∧
        ∀ r ∈ records, r.Sound fun views => ∃ n ≤ 2 ^ 31 - 2, views = decimal n) ∧
      ∀ i, Faultless (s.threads i) := by
  intro arrivals
  have hplay : ((serving [] arrivals).play (reference memeSchema).exec [0, 1, 2, 1]).isSome := by
    decide +kernel
  obtain ⟨s, hs⟩ := Option.isSome_iff_exists.mp hplay
  have hgets : (gets arrivals).encard < ((2 ^ 31 - 1 : Nat) : ℕ∞) := by
    refine (Set.encard_le_encard (Set.subset_univ _)).trans_lt ?_
    rw [Set.encard_univ, ENat.card_eq_coe_fintype_card, Fintype.card_fin]
    exact Nat.cast_lt.mpr (by decide)
  exact ⟨s, hs, rows_sound (reference_standard memeSchema) rfl (by decide) hgets
    (Pool.reachable_of_play hs)⟩

end GittyUp
