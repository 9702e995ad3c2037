import GittyUp.Meme.Store

/-!
# The order of a list of memes (`meme_list`, `meme_search`)

Both handlers sort the rows of their query by the number of views, least first,
and then write the sorted rows from the last to the first. On rows whose counts
can be read the first step is a stable sort by these counts (`sortMemes_eq`),
and the second writes one entry for each row with commas between them
(`memeEntries_eq`).
-/

namespace GittyUp

open Lib

/-! ## Sorting -/

/-- Rows that can be compared are sorted by what is compared. -/
theorem sortMemes_eq {rows : List Row} {count : Row → Int}
    (h : ∀ row ∈ rows, timesViewed row = .ok (count row)) :
    sortMemes rows = .ok (rows.mergeSort fun a b => count a ≤ count b) := by
  have hkeyed : (rows.mapM (fun row => do
      let views ← timesViewed row
      return (views, row)) : Except Abort (List (Int × Row))) =
        .ok (rows.map fun row => (count row, row)) := by
    induction rows with
    | nil => rfl
    | cons row rows ih =>
      obtain ⟨hrow, hrows⟩ := List.forall_mem_cons.mp h
      rw [List.mapM_cons, hrow, ih hrows]
      rfl
  have hsort : ((rows.map fun row => (count row, row)).mergeSort fun a b => a.1 ≤ b.1).map
      Prod.snd = rows.mergeSort fun a b => count a ≤ count b := by
    rw [List.map_mergeSort (s := fun a b => decide (count a ≤ count b)), List.map_map]
    · exact congrArg (List.mergeSort · _) (List.map_id rows)
    · intro a ha b hb
      obtain ⟨row, -, rfl⟩ := List.mem_map.mp ha
      obtain ⟨row', -, rfl⟩ := List.mem_map.mp hb
      rfl
  unfold sortMemes
  split_ifs with hlength
  · -- fewer than two rows are sorted as they are
    rw [List.mergeSort_of_pairwise]
    match rows, hlength with
    | [], _ => exact .nil
    | [row], _ => exact List.pairwise_singleton _ row
  · rw [hkeyed]
    exact congrArg Except.ok hsort

/-- `listed` has the rows in the order of their counts, greatest first; rows with
the same count come last to first. -/
structure PopularityOrder (count : Row → Int) (rows listed : List Row) : Prop where
  once : listed.Perm rows
  order : listed.Pairwise fun a b => count b ≤ count a
  ties : ∀ n, listed.filter (fun row => count row = n) =
    (rows.filter fun row => count row = n).reverse

/-- A stable sort read backwards. -/
theorem popularityOrder_reverse_mergeSort (count : Row → Int) (rows : List Row) :
    PopularityOrder count rows (rows.mergeSort fun a b => count a ≤ count b).reverse := by
  have htrans : ∀ a b c : Row, decide (count a ≤ count b) = true →
      decide (count b ≤ count c) = true → decide (count a ≤ count c) = true := by
    intro a b c hab hbc
    exact decide_eq_true ((of_decide_eq_true hab).trans (of_decide_eq_true hbc))
  have htotal : ∀ a b : Row, (decide (count a ≤ count b) || decide (count b ≤ count a)) = true := by
    intro a b
    rw [Bool.or_eq_true, decide_eq_true_iff, decide_eq_true_iff]
    exact le_total _ _
  have hperm := List.mergeSort_perm rows fun a b => decide (count a ≤ count b)
  refine ⟨(List.reverse_perm _).trans hperm, ?_, fun n => ?_⟩
  · rw [List.pairwise_reverse]
    exact (List.pairwise_mergeSort htrans htotal rows).imp of_decide_eq_true
  · rw [List.filter_reverse]
    congr 1
    -- rows of one count are sorted already, so they stay in their order
    have hequal : (rows.filter fun row => count row = n).Pairwise
        fun a b => decide (count a ≤ count b) = true := by
      refine List.pairwise_of_forall_mem_list fun a ha b hb => decide_eq_true (le_of_eq ?_)
      rw [of_decide_eq_true (List.mem_filter.mp ha).2, of_decide_eq_true (List.mem_filter.mp hb).2]
    have hsub := (List.sublist_mergeSort htrans htotal hequal List.filter_sublist).filter
      fun row => count row = n
    rw [List.filter_filter] at hsub
    simp only [Bool.and_self] at hsub
    exact (hsub.eq_of_length (hperm.filter _).length_eq.symm).symm

/-! ## Writing -/

/-- The entries of the rows, with commas between them. -/
def memeEntries : Bool → List Row → Except Abort Bytes
  | _, [] => .ok ""
  | addComma, row :: rows => do
    let entry ← memeEntry row
    let rest ← memeEntries true rows
    return (if addComma then lit "," else []) ++ entry ++ rest

/-- There is one comma less than there are rows, but for one in front. -/
theorem memeEntries_eq {rows : List Row} {entry : Row → Bytes}
    (h : ∀ row ∈ rows, memeEntry row = .ok (entry row)) (addComma : Bool) :
    memeEntries addComma rows =
      .ok ((if addComma ∧ rows ≠ [] then lit "," else []) ++
        List.intercalate (lit ",") (rows.map entry)) := by
  induction rows generalizing addComma with
  | nil => simp [memeEntries, lit]
  | cons row rows ih =>
    obtain ⟨hrow, hrows⟩ := List.forall_mem_cons.mp h
    rw [memeEntries, hrow, ih hrows true]
    show Except.ok _ = Except.ok _
    congr 1
    cases rows with
    | nil => simp
    | cons row' rows => simp [List.intercalate_cons_cons]

/-- **The loop writes the rows from the last to the first**; no index is out of
range. -/
theorem memeEntriesLoop_eq (result : List Row) (addComma : Bool) :
    memeEntriesLoop result result.length addComma = memeEntries addComma result.reverse := by
  have hloop : ∀ remaining ≤ result.length, ∀ addComma,
      memeEntriesLoop result remaining addComma =
        memeEntries addComma (result.take remaining).reverse := by
    intro remaining
    induction remaining with
    | zero => exact fun _ _ => rfl
    | succ remaining ih =>
      intro hle addComma
      have hindex : result.length - 1 - (result.length - (remaining + 1)) = remaining := by omega
      rw [memeEntriesLoop, hindex, ih (by omega) true, List.take_add_one,
        List.getElem?_eq_getElem (by omega), List.reverse_append]
      rfl
  rw [hloop result.length (le_refl _), List.take_length]

/-! ## The two lists -/

/-- What is written for a row. -/
def rowEntry (row : Row) : Bytes :=
  lit "\"" ++ (row.getD 0 []) ++ lit ":" ++ (row.getD 4 []) ++ lit ":" ++ (row.getD 1 []) ++
    lit ":" ++ (row.getD 2 []) ++ lit ":" ++ (row.getD 3 []) ++ lit "\""

theorem memeEntry_eq {row : Row} (h : 5 ≤ row.length) : memeEntry row = .ok (rowEntry row) := by
  match row, h with
  | id :: img :: top :: bot :: views :: rest, _ => rfl

/-- The body for some rows: a JSON array of one string for each. -/
def arrayBody (listed : List Row) : Bytes :=
  lit "[" ++ List.intercalate (lit ",") (listed.map rowEntry) ++ lit "]"

/-- The rows have their counts as decimal texts in the fifth field. -/
def CountedBy (count : Row → Int) (rows : List Row) : Prop :=
  ∀ row ∈ rows, ∃ text, row[4]? = some text ∧ DecimalText text (count row)

theorem CountedBy.timesViewed {count : Row → Int} {rows : List Row} (h : CountedBy count rows) :
    ∀ row ∈ rows, timesViewed row = .ok (count row) := by
  intro row hrow
  obtain ⟨text, htext, hdecimal⟩ := h row hrow
  simp only [GittyUp.timesViewed, htext, hdecimal.stoi]

/-- A row that can be compared has all its fields. -/
theorem le_length_of_timesViewed {row : Row} {n : Int} (h : timesViewed row = .ok n) :
    5 ≤ row.length := by
  cases htext : row[4]? with
  | none =>
    rw [timesViewed, htext] at h
    contradiction
  | some text => exact (List.getElem?_eq_some_iff.mp htext).1

theorem memeArray_eq {rows : List Row} {count : Row → Int}
    (h : ∀ row ∈ rows, timesViewed row = .ok (count row)) :
    memeArray rows = .ret (typedResponse 200
      (arrayBody (rows.mergeSort fun a b => count a ≤ count b).reverse) (getMimeType ".json")) := by
  have hentry : ∀ row ∈ (rows.mergeSort fun a b => count a ≤ count b).reverse,
      memeEntry row = .ok (rowEntry row) := by
    intro row hrow
    have hmem := List.mem_mergeSort.mp (List.mem_reverse.mp hrow)
    exact memeEntry_eq (le_length_of_timesViewed (h row hmem))
  unfold memeArray
  rw [sortMemes_eq h]
  simp only [bind, Except.bind, pure, Except.pure]
  rw [memeEntriesLoop_eq, memeEntries_eq hentry]
  rfl

/-- **Popularity order.** Where the counts of the returned rows can be read, the
list and the search write every row once, the most viewed first, rows with equal
counts in the reverse of the order in which they were returned, and one comma
between two entries. -/
theorem popularity_order {S : Type} (exec : S → SqlStatement → SqlReply × S) (db : S)
    {rows : List Row} {count : Row → Int} (h : CountedBy count rows) :
    ∃ listed, PopularityOrder count rows listed ∧
      (((selectRecord tableName [] : MemeProg (List Row)).run exec db).1 = .ok rows →
        (memeList.run exec db).1 =
          .ok (typedResponse 200 (arrayBody listed) (getMimeType ".json"))) ∧
      ∀ query decodedQuery, uriDecode query = .ok decodedQuery →
        ((searchRecord tableName [("top_caption", decodedQuery), ("bot_caption", decodedQuery)] :
          MemeProg (List Row)).run exec db).1 = .ok rows →
        ((memeSearch query).run exec db).1 =
          .ok (typedResponse 200 (arrayBody listed) (getMimeType ".json")) := by
  have harray := memeArray_eq h.timesViewed
  refine ⟨_, popularityOrder_reverse_mergeSort count rows, fun hselect => ?_,
    fun query decodedQuery hdecode hsearch => ?_⟩
  · obtain rfl := Except.ok.inj hselect
    show ((memeArray _).run exec _).1 = _
    rw [harray]
    rfl
  · obtain rfl := Except.ok.inj hsearch
    unfold memeSearch
    rw [hdecode]
    show ((memeArray _).run exec _).1 = _
    rw [harray]
    rfl

/-- Three memes, two of them viewed equally often. -/
def rowsViewed : List Row :=
  [["1", "a.jpg", "x", "y", "7"], ["2", "b.jpg", "x", "y", "10"], ["3", "c.jpg", "x", "y", "7"]]

theorem popularity_order_viewed :
    ∃ listed, PopularityOrder (fun row => digitsValue (row.getD 4 [])) rowsViewed listed ∧
      (memeList.run (reference memeSchema).exec rowsViewed).1 =
        .ok (typedResponse 200 (arrayBody listed) (getMimeType ".json")) := by
  have hcounted : CountedBy (fun row => digitsValue (row.getD 4 [])) rowsViewed := by
    intro row hrow
    simp only [rowsViewed, List.mem_cons, List.not_mem_nil, or_false] at hrow
    rcases hrow with rfl | rfl | rfl
    · exact ⟨"7", rfl, .digits (by decide) (by decide) (by decide)⟩
    · exact ⟨"10", rfl, .digits (by decide) (by decide) (by decide)⟩
    · exact ⟨"7", rfl, .digits (by decide) (by decide) (by decide)⟩
  obtain ⟨listed, horder, hlist, -⟩ :=
    popularity_order (reference memeSchema).exec rowsViewed hcounted
  exact ⟨listed, horder, hlist (by decide +kernel)⟩

end GittyUp
