import GittyUp.Lib.Json
import GittyUp.Meme.Rows

/-!
# What the browser decodes

The handler writes JSON without escaping anything, and puts colons between the
parts of an entry of a list. The pages decode the JSON, and `list.js` splits
every entry at colons. `encoders_agree`: on every table that requests can lead
to, with any number of views, they get back what is stored.
-/

namespace GittyUp

open Lib Regex

/-! ## View counts that may overflow -/

/-- The text of an `int`. -/
theorem intText_spec {z : Int} (hlow : -2 ^ 31 ≤ z) (hhigh : z < 2 ^ 31) :
    stoi (intText z) = .ok z ∧ ∀ c ∈ intText z, IsDigit c ∨ c = '-' := by
  have hbmod : z.bmod (2 ^ 32) = z := by
    rw [Int.bmod_def]
    omega
  obtain ⟨hne, hdigits, hvalue⟩ := decimal_spec z.natAbs
  unfold intText
  simp only [hbmod]
  split_ifs with hneg
  · constructor
    · rw [stoi_minus_digits hne hdigits (by omega), hvalue]
      congr 1
      omega
    · exact List.forall_mem_append.mpr ⟨by decide, fun c hc => .inl (hdigits c hc)⟩
  · constructor
    · rw [stoi_decimal (by omega)]
      congr 1
      omega
    · exact fun c hc => .inl (hdigits c hc)

/-- The text of any `int`, whatever has been counted. -/
def IsIntText (t : Bytes) : Prop := ∃ z : Int, -2 ^ 31 ≤ z ∧ z < 2 ^ 31 ∧ t = intText z

theorem viewTexts_int : ViewTexts (fun _ => IsIntText) ⊤ := by
  refine ⟨⟨0, by decide, by decide, by decide⟩, fun _ _ h => h, ?_, ?_⟩
  · rintro _ _ ⟨z, hlow, hhigh, rfl⟩ h0
    exact absurd ((intText_spec hlow hhigh).2 0 h0) (by decide)
  · rintro _ _ - ⟨z, hlow, hhigh, rfl⟩
    have hbmod := Int.bmod_def (z + 1) (2 ^ 32)
    refine ⟨z, (intText_spec hlow hhigh).1, fun _ => ⟨(z + 1).bmod (2 ^ 32), ?_, ?_, ?_⟩⟩
    · split_ifs at hbmod <;> omega
    · split_ifs at hbmod <;> omega
    · unfold intText
      rw [Int.bmod_bmod]

/-! ## Entries -/

/-- What may stand in a part of an entry: neither a colon nor anything that JSON
would have escaped. -/
def IsPart (s : Bytes) : Prop := ∀ c ∈ s, Json.IsStringChar c ∧ c ≠ ':'

/-- The parts of a row in the order of an entry. -/
def MemeRecord.parts (r : MemeRecord) : List Bytes :=
  [r.id, r.views, r.texts.memeTemplate, r.texts.topCaption, r.texts.bottomCaption]

theorem MemeRecord.entry_eq (r : MemeRecord) : r.entry = List.intercalate (lit ":") r.parts := by
  simp [MemeRecord.entry, MemeRecord.parts, List.intercalate_cons_cons, lit]

theorem isPart_of_hex {s : Bytes} (h : ∀ c ∈ s, IsHexDigit c ∨ c = '-') : IsPart s := by
  intro c hc
  have hchar := h c hc
  unfold IsHexDigit IsDigit at hchar
  unfold Json.IsStringChar
  simp only [UInt8.le_iff_toNat_le, UInt8.lt_iff_toNat_lt, ne_eq, ← UInt8.toNat_inj] at *
  simp at *
  omega

theorem isPart_of_caption {s : Bytes} (h : ∀ c ∈ s, IsCaptionChar c) : IsPart s := by
  intro c hc
  have hchar := h c hc
  unfold IsCaptionChar IsWordChar IsDigit at hchar
  unfold Json.IsStringChar
  simp only [UInt8.le_iff_toNat_le, UInt8.lt_iff_toNat_lt, ne_eq, ← UInt8.toNat_inj] at *
  simp at *
  omega

/-- The parts of a sound record. -/
theorem MemeRecord.Sound.parts {r : MemeRecord} (h : r.Sound IsIntText) :
    ∀ s ∈ r.parts, IsPart s := by
  obtain ⟨z, hlow, hhigh, hviews⟩ := h.views
  have htexts := h.texts
  simp only [MemeTexts.Proper, List.forall_mem_cons] at htexts
  simp only [MemeRecord.parts, List.forall_mem_cons]
  refine ⟨isPart_of_hex (chars_of_checkId h.id), ?_, isPart_of_caption htexts.1.2,
    isPart_of_caption htexts.2.1.2, isPart_of_caption htexts.2.2.1.2, by simp⟩
  rw [hviews]
  exact isPart_of_hex fun c hc => ((intText_spec hlow hhigh).2 c hc).imp_left .inl

/-- **Splitting an entry gives back its parts.** -/
theorem splitOn_entry {r : MemeRecord} (h : r.Sound IsIntText) :
    r.entry.splitOn (':' : Byte) = r.parts := by
  rw [r.entry_eq]
  exact List.splitOn_intercalate (':' : Byte) (fun s hs hc => (h.parts s hs _ hc).2 rfl)
    (List.cons_ne_nil _ _)

theorem stringChars_entry {r : MemeRecord} (h : r.Sound IsIntText) :
    ∀ c ∈ r.entry, Json.IsStringChar c := by
  have hparts := fun s hs c hc => (h.parts s hs c hc).1
  have hcolon : ∀ c ∈ lit ":", Json.IsStringChar c := by decide
  simp only [MemeRecord.parts, List.forall_mem_cons] at hparts
  simp only [MemeRecord.entry, List.forall_mem_append]
  exact ⟨⟨⟨⟨⟨⟨⟨⟨hparts.1, hcolon⟩, hparts.2.1⟩, hcolon⟩, hparts.2.2.1⟩, hcolon⟩, hparts.2.2.2.1⟩,
    hcolon⟩, hparts.2.2.2.2.1⟩

/-! ## Lists -/

theorem starts_quoted {close : Byte} (hclose : close ≠ '"') (w t : Bytes) :
    Json.Starts close (Json.quoted w ++ t) :=
  ⟨'"', w ++ lit "\"" ++ t, by simp [Json.quoted, lit], by decide, hclose.symm⟩

/-- **The body of a list decodes to the entries.** -/
theorem parse_listBody {rs : List MemeRecord} (h : ∀ r ∈ rs, r.Sound IsIntText) :
    Json.parse (listBody rs) = some (.array ((rs.map MemeRecord.entry).map .string)) := by
  have hitems : ∀ fuel, List.Forall₂ (Json.Reads (Json.value (fuel + 1)))
      (rs.map fun r => Json.quoted r.entry) ((rs.map MemeRecord.entry).map .string) := by
    intro fuel
    rw [List.map_map, List.forall₂_map_left_iff, List.forall₂_map_right_iff, List.forall₂_same]
    exact fun r hr => Json.reads_string (stringChars_entry (h r hr)) fuel
  have hstarts : ∀ t ∈ rs.map fun r => Json.quoted r.entry, Json.Starts ']' t := by
    intro t ht
    obtain ⟨r, -, rfl⟩ := List.mem_map.mp ht
    simpa using starts_quoted (show (']' : Byte) ≠ '"' by decide) r.entry []
  have hblanks : ∀ c ∈ ([] : Bytes), Json.IsBlank c := by simp
  have harray := Json.parse_array hitems hstarts hblanks
  rw [List.append_nil] at harray
  exact harray

/-- The object with the texts of a meme. -/
def memeJson (img top bot : Bytes) : Json :=
  .object [("memeSelect", .string img), ("topCaption", .string top), ("bottomCaption", .string bot)]

/-- **The body of a meme decodes to its texts.** -/
theorem parse_memeBody {texts : MemeTexts} (h : texts.Proper) :
    Json.parse (memeBody texts) = some (memeJson texts.memeTemplate texts.topCaption
      texts.bottomCaption) := by
  -- every member has one blank behind its colon
  have hmember : ∀ {k v : Bytes}, (∀ c ∈ k, Json.IsStringChar c) → (∀ c ∈ v, IsCaptionChar c) →
      ∀ fuel, Json.Reads (Json.member (Json.value (fuel + 1)))
        (Json.quoted k ++ (lit ":" ++ (lit " " ++ Json.quoted v))) (k, .string v) :=
    fun hk hv fuel => Json.reads_member hk (by decide)
      (Json.reads_string (fun c hc => (isPart_of_caption hv c hc).1) fuel)
  simp only [MemeTexts.Proper, List.forall_mem_cons] at h
  have hbrace : ('\x7d' : Byte) ≠ '"' := by decide
  have hobject := Json.parse_object (fun fuel =>
    .cons (hmember (k := "memeSelect") (by decide) h.1.2 fuel)
      (.cons (hmember (k := "topCaption") (by decide) h.2.1.2 fuel)
        (.cons (hmember (k := "bottomCaption") (by decide) h.2.2.1.2 fuel) .nil)))
    (List.forall_mem_cons.mpr ⟨starts_quoted hbrace _ _, List.forall_mem_cons.mpr
      ⟨starts_quoted hbrace _ _, List.forall_mem_singleton.mpr (starts_quoted hbrace _ _)⟩⟩)
    (show ∀ c ∈ lit " ", Json.IsBlank c by decide)
  rw [memeJson, ← hobject]
  congr 1
  simp [memeBody, Json.quoted, List.intercalate_cons_cons, lit]

/-! ## Every reachable table -/

/-- The body is an array with one string for each of the rows, in some order, and
every string splits at colons into the five values of its row. -/
def ListsRows (rows : List Row) (body : Bytes) : Prop :=
  ∃ entries : List Bytes, Json.parse body = some (.array (entries.map .string)) ∧
    ∃ order : List Row, order.Perm rows ∧ List.Forall₂ (fun row entry =>
      ∃ id img top bot views, row = [id, img, top, bot, views] ∧
        entry.splitOn (':' : Byte) = [id, views, img, top, bot]) order entries

/-- What the handler encodes on a table is decoded to what the table holds. A GET
of one meme may have its `UPDATE` executed in any later state. -/
structure EncodersAgree {Db : Type} (L : Sqlite Db) (db : Db) : Prop where
  list : ∃ response, (memeList.run L.exec db).1 = .ok response ∧
    ListsRows (L.exec db MemeStatement.all.statement).1.rows response.responseBody
  search : ∀ query decoded, uriDecode query = .ok decoded →
    ∃ response, ((memeSearch query).run L.exec db).1 = .ok response ∧
      ListsRows (L.exec db (MemeStatement.search decoded).statement).1.rows response.responseBody
  byId : ∀ id db' response,
    ((countView ((L.exec db (MemeStatement.byId id).statement).1.rows.map
      fun row => row.map cStr)).run L.exec db').1 = .ok response → response.statusCode = 200 →
    ∃ rowId img top bot views,
      (L.exec db (MemeStatement.byId id).statement).1.rows = [[rowId, img, top, bot, views]] ∧
      Json.parse response.responseBody = some (memeJson img top bot)

/-- The list of sound records. -/
theorem listsRows_listBody {rs sorted : List MemeRecord} (h : ∀ r ∈ rs, r.Sound IsIntText)
    (hperm : sorted.Perm rs) : ListsRows (rs.map MemeRecord.row) (listBody sorted) := by
  have hsorted : ∀ r ∈ sorted, r.Sound IsIntText := fun r hr => h r (hperm.mem_iff.mp hr)
  refine ⟨sorted.map MemeRecord.entry, parse_listBody hsorted, sorted.map MemeRecord.row,
    hperm.map _, ?_⟩
  rw [List.forall₂_map_left_iff, List.forall₂_map_right_iff, List.forall₂_same]
  exact fun r hr => ⟨_, _, _, _, _, rfl, splitOn_entry (hsorted r hr)⟩

section Interleaving

variable {ι : Type} [DecidableEq ι] {Db : Type} {L : Sqlite Db} {arrivals : ι → Arrival}

/-- **Encoders and decoders agree** on every table that any number of requests
leads to, in whatever order their statements are executed. -/
theorem encoders_agree (hstd : L.Standard memeSchema) {db : Db} (hempty : L.rows db = 0)
    (huuids : ∀ i, IsUuid (arrivals i).uuid)
    {s : Pool Abort SqlStatement SqlReply Response Db ι}
    (h : Reachable (Pool.Step L.exec) (serving db arrivals) s) : EncodersAgree L s.shared := by
  obtain ⟨g, htable, -⟩ := soundTable_of_reachable viewTexts_int hstd le_top hempty huuids h
  have hread := fun st hst => htable.rows_exec viewTexts_int hstd le_top st hst
  have hlist : ∀ st : MemeStatement, st.Reads →
      ∃ response, (memeArray ((L.exec s.shared st.statement).1.rows.map
          fun row => row.map cStr)).run L.exec (L.exec s.shared st.statement).2 =
        (.ok response, (L.exec s.shared st.statement).2) ∧
        ListsRows (L.exec s.shared st.statement).1.rows response.responseBody := by
    intro st hst
    obtain ⟨rs, hrs, hrows, hcStr⟩ := hread st hst
    obtain ⟨sorted, hperm, harray⟩ := memeArray_rows fun r hr => (hrs r hr).2
    rw [hcStr, harray, hrows]
    exact ⟨_, rfl, listsRows_listBody (fun r hr => (hrs r hr).1) hperm⟩
  refine ⟨?_, fun query decoded hdecode => ?_, fun id db' response hrun hok => ?_⟩
  · obtain ⟨response, hrun, hlists⟩ := hlist .all trivial
    exact ⟨response, congrArg Prod.fst hrun, hlists⟩
  · obtain ⟨response, hrun, hlists⟩ := hlist (.search decoded) trivial
    refine ⟨response, ?_, hlists⟩
    unfold memeSearch
    rw [hdecode]
    exact congrArg Prod.fst hrun
  · obtain ⟨rs, hrs, hrows, hcStr⟩ := hread (.byId id) trivial
    rw [hcStr] at hrun
    rcases countView_rows fun r hr => (hrs r hr).2 with hnone | ⟨r, z, rfl, -, hcount⟩
    · rw [hnone] at hrun
      obtain rfl := Except.ok.inj hrun
      exact absurd hok (by decide)
    · rw [hcount] at hrun
      obtain rfl := Except.ok.inj hrun
      exact ⟨_, _, _, _, _, hrows, parse_memeBody (hrs r List.mem_cons_self).1.texts⟩

end Interleaving

/-- The table after a POST. -/
theorem encoders_agree_post :
    let arrivals : Fin 1 → Arrival :=
      ![⟨"00000000-0000-4000-8000-000000000001", ⟨"", "POST", "/memes/", ∅,
          "memeSelect=a.jpg&topCaption=b&bottomCaption=c", ∅, true⟩⟩]
    ∃ s, (serving [] arrivals).play (reference memeSchema).exec [0] = some s ∧
      EncodersAgree (reference memeSchema) s.shared := by
  intro arrivals
  have hplay : ((serving [] arrivals).play (reference memeSchema).exec [0]).isSome := by
    decide +kernel
  obtain ⟨s, hs⟩ := Option.isSome_iff_exists.mp hplay
  exact ⟨s, hs, encoders_agree (reference_standard memeSchema) rfl (by decide)
    (Pool.reachable_of_play hs)⟩

end GittyUp
