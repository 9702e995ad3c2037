import GittyUp.Http.Request
import GittyUp.Lib.Html
import GittyUp.Router.Status

/-!
# The status page as HTML (`status_handler.cc`)

The texts of the log are written between the tags of the page as they are. A reader
finds the log in the page exactly if none of them opens markup and each reads as
what it is (`showsLog_iff`).
-/

namespace GittyUp

open Lib

/-- A table with other rows. -/
def StatusTable.map {α β : Type} (f : α → β) : StatusTable α → StatusTable β
  | .placeholder => .placeholder
  | .rows l => .rows (l.map f)

/-! ## The page in pieces -/

/-- A row of a table. -/
def rowPieces (cells : Bytes × Bytes) : List HtmlPiece :=
  [("", "<tr>"), ("", "<td>"), (cells.1, "</td>"), ("", "<td>"), (cells.2, "</td>"), ("", "</tr>")]

/-- The body of a table; `td` is the tag of the row that says there are none. -/
def StatusTable.pieces {α : Type} (cells : α → Bytes × Bytes) (td none : Bytes) :
    StatusTable α → List HtmlPiece
  | .placeholder => [("", "</tr>"), ("", td), (none, "</td>"), ("", "<tr>")]
  | .rows l => (l.map cells).flatMap rowPieces

/-- The two cells of a request. -/
def requestCells (request : Bytes × Nat) : Bytes × Bytes := (request.1, decimal request.2)

/-- The start of a table, with its headings. -/
def headingPieces (first second : Bytes) : List HtmlPiece :=
  [("", "<table>"), ("", "<tr>"), ("", "<th>"), (first, "</th>"), ("", "<th>"), (second, "</th>"),
    ("", "</tr>")]

/-- A table with its headings. -/
def tablePieces (first second : Bytes) (body : List HtmlPiece) : List HtmlPiece :=
  headingPieces first second ++ body ++ [([], lit "</table>")]

/-- The page down to its first table. -/
def headPieces (numRequest : Nat) : List HtmlPiece :=
  [("", "<!DOCTYPE html>"), ("", "<html>"), ("", "<head>"), ("", "</head>"), ("", "<body>"),
    ("", "<h1>"), ("Server Status", "</h1>"), ("", "<p>"),
    (lit "Number of request: " ++ decimal numRequest, "</p>")]

/-- The pieces of the page. -/
def StatusPage.pieces (page : StatusPage) : List HtmlPiece :=
  headPieces page.numRequest.toNat ++ tablePieces "URL" "Response Code"
      (page.requests.pieces requestCells "<td colspan='2'>" "No Request") ++
    [([], lit "<p>"), (lit "URL Prefix and Handler Matching", lit "</p>")] ++
    tablePieces "Prefix" "Handler" (page.prefixes.pieces id "<td colspan= '2'>" "Empty") ++
    [([], lit "</body>"), ([], lit "</html>")]

theorem render_append (u v : List HtmlPiece) : render (u ++ v) = render u ++ render v :=
  List.flatMap_append

/-- The text of the body of a table. -/
def StatusTable.text {α : Type} (none : Bytes) (row : α → Bytes) : StatusTable α → Bytes
  | .placeholder => none
  | .rows l => l.flatMap row

theorem StatusTable.render_pieces {α : Type} (cells : α → Bytes × Bytes) (td none : Bytes)
    (t : StatusTable α) : render (t.pieces cells td none) =
      t.text (lit "</tr>" ++ td ++ none ++ lit "</td><tr>") fun a =>
        lit "<tr><td>" ++ (cells a).1 ++ lit "</td>" ++ lit "<td>" ++ (cells a).2 ++
          lit "</td></tr>" := by
  cases t with
  | placeholder => simp [StatusTable.pieces, StatusTable.text, render, lit]
  | rows l =>
    rw [StatusTable.pieces, StatusTable.text, render, List.flatMap_assoc, List.flatMap_map]
    refine List.flatMap_congr fun a _ => ?_
    simp [rowPieces, lit]

theorem render_headPieces (n : Nat) : render (headPieces n) =
    lit "<!DOCTYPE html><html><head></head><body><h1>Server Status</h1><p>Number of request: " ++
      decimal n ++ lit "</p>" := by
  simp only [render, headPieces, List.flatMap_cons, List.flatMap_nil, List.append_nil,
    ← List.append_assoc]
  rfl

/-- The text of the page is put together from its pieces. -/
theorem StatusPage.text_eq_render (page : StatusPage) : page.text = render page.pieces := by
  have hbodies : page.text =
      lit "<!DOCTYPE html><html><head></head><body><h1>Server Status</h1><p>Number of request: " ++
        decimal page.numRequest.toNat ++ lit "</p>" ++ lit "<table>" ++
        lit "<tr><th>URL</th><th>Response Code</th></tr>" ++
        page.requests.text (lit "</tr>" ++ lit "<td colspan='2'>" ++ lit "No Request" ++
          lit "</td><tr>") (fun request => lit "<tr><td>" ++ request.1 ++ lit "</td>" ++
            lit "<td>" ++ decimal request.2 ++ lit "</td></tr>") ++
        lit "</table>" ++ lit "<p>URL Prefix and Handler Matching</p>" ++ lit "<table>" ++
        lit "<tr><th>Prefix</th><th>Handler</th></tr>" ++
        page.prefixes.text (lit "</tr>" ++ lit "<td colspan= '2'>" ++ lit "Empty" ++
          lit "</td><tr>") (fun pre => lit "<tr><td>" ++ pre.1 ++ lit "</td>" ++
            lit "<td>" ++ pre.2 ++ lit "</td></tr>") ++
        lit "</table></body></html>" := by
    obtain ⟨n, requests, prefixes⟩ := page
    cases requests <;> cases prefixes <;> rfl
  have hfirst : render (headingPieces "URL" "Response Code") =
      lit "<table>" ++ lit "<tr><th>URL</th><th>Response Code</th></tr>" := by decide
  have hsecond : render (headingPieces "Prefix" "Handler") =
      lit "<table>" ++ lit "<tr><th>Prefix</th><th>Handler</th></tr>" := by decide
  have hbetween : render [([], lit "<p>"), (lit "URL Prefix and Handler Matching", lit "</p>")] =
      lit "<p>URL Prefix and Handler Matching</p>" := by decide
  have hclose : render [([], lit "</table>")] = lit "</table>" := by decide
  have hend : lit "</table></body></html>" =
      lit "</table>" ++ render [([], lit "</body>"), ([], lit "</html>")] := by decide
  rw [hbodies, hend, StatusPage.pieces]
  simp only [render_append, tablePieces, render_headPieces, StatusTable.render_pieces, requestCells,
    id, hfirst, hsecond, hbetween, hclose, List.append_assoc]

/-! ## Its tags and its texts -/

/-- The tags above the tables. -/
def headTags : List Bytes :=
  ["<!DOCTYPE html>", "<html>", "<head>", "</head>", "<body>", "<h1>", "</h1>", "<p>", "</p>"]

/-- The tags inside the tables. -/
def tableTags : List Bytes :=
  ["<tr>", "</tr>", "<th>", "</th>", "<td>", "</td>", "<td colspan='2'>", "<td colspan= '2'>"]

theorem headTags_spec : ∀ tag ∈ headTags, IsTag tag ∧ tag ≠ lit "<table>" := by decide

theorem tableTags_spec :
    ∀ tag ∈ tableTags, IsTag tag ∧ tag ≠ lit "<table>" ∧ tag ≠ lit "</table>" := by decide

theorem tableTags_placeholders :
    lit "<td colspan='2'>" ∈ tableTags ∧ lit "<td colspan= '2'>" ∈ tableTags := by
  simp [tableTags]

theorem tags_headPieces (n : Nat) : ∀ p ∈ headPieces n, p.2 ∈ headTags := by
  simp [headPieces, headTags]

theorem tags_headingPieces (first second : Bytes) :
    ∀ p ∈ (headingPieces first second).tail, p.2 ∈ tableTags := by
  simp [headingPieces, tableTags]

theorem StatusTable.tags_pieces {α : Type} (cells : α → Bytes × Bytes) {td : Bytes}
    (htd : td ∈ tableTags) (none : Bytes) (t : StatusTable α) :
    ∀ p ∈ t.pieces cells td none, p.2 ∈ tableTags := by
  cases t with
  | placeholder =>
    simp only [StatusTable.pieces, List.forall_mem_cons, htd]
    simp [tableTags]
  | rows l =>
    have hrow : ∀ c : Bytes × Bytes, ∀ p ∈ rowPieces c, p.2 ∈ tableTags := by
      simp [rowPieces, tableTags]
    intro p hp
    obtain ⟨c, -, hp⟩ := List.mem_flatMap.mp hp
    exact hrow c p hp

theorem tablePieces_eq (first second : Bytes) (body : List HtmlPiece) :
    tablePieces first second body = (lit "", lit "<table>") ::
      ((headingPieces first second).tail ++ body ++ [([], lit "</table>")]) := rfl

theorem isTag_tablePieces (first second : Bytes) {body : List HtmlPiece}
    (h : ∀ p ∈ body, p.2 ∈ tableTags) : ∀ p ∈ tablePieces first second body, IsTag p.2 := by
  have htable : ∀ tag ∈ [lit "<table>", lit "</table>"], IsTag tag := by decide
  have htail : ∀ p ∈ (headingPieces first second).tail ++ body, IsTag p.2 := fun p hp =>
    (tableTags_spec _ ((List.mem_append.mp hp).elim (tags_headingPieces _ _ p) (h p))).1
  rw [tablePieces_eq, List.forall_mem_cons, List.forall_mem_append, List.forall_mem_singleton]
  exact ⟨htable _ (by simp), htail, htable _ (by simp)⟩

/-- All markup of the page is tags. -/
theorem StatusPage.isTag_pieces (page : StatusPage) : ∀ p ∈ page.pieces, IsTag p.2 := by
  have hhead : ∀ p ∈ headPieces page.numRequest.toNat, IsTag p.2 := fun p hp =>
    (headTags_spec _ (tags_headPieces _ p hp)).1
  have hrequests := isTag_tablePieces "URL" "Response Code"
    (page.requests.tags_pieces requestCells tableTags_placeholders.1 "No Request")
  have hprefixes := isTag_tablePieces "Prefix" "Handler"
    (page.prefixes.tags_pieces id tableTags_placeholders.2 "Empty")
  have hrest : ∀ tag ∈ [lit "<p>", lit "</p>", lit "</body>", lit "</html>"], IsTag tag := by decide
  simp only [StatusPage.pieces, List.forall_mem_append]
  refine ⟨⟨⟨⟨hhead, hrequests⟩, fun p hp => hrest _ ?_⟩, hprefixes⟩, fun p hp => hrest _ ?_⟩
  · rcases List.mem_pair.mp hp with rfl | rfl <;> simp
  · rcases List.mem_pair.mp hp with rfl | rfl <;> simp

theorem isText_decimal (n : Nat) : IsText (decimal n) :=
  isText_of_not_mem fun h => absurd ((decimal_spec n).2.1 _ h) (by decide)

theorem StatusTable.isText_pieces_iff {α : Type} (cells : α → Bytes × Bytes) (td : Bytes)
    {none : Bytes} (hnone : IsText none) (t : StatusTable α) :
    (∀ p ∈ t.pieces cells td none, IsText p.1) ↔
      ∀ c ∈ t.entries.map cells, IsText c.1 ∧ IsText c.2 := by
  have hempty : IsText (lit "") := trivial
  cases t with
  | placeholder =>
    simp only [StatusTable.pieces, List.forall_mem_cons]
    exact ⟨fun _ c hc => (nomatch hc),
      fun _ => ⟨hempty, hempty, hnone, hempty, List.forall_mem_nil _⟩⟩
  | rows l =>
    have hrow : ∀ c : Bytes × Bytes, (∀ p ∈ rowPieces c, IsText p.1) ↔ IsText c.1 ∧ IsText c.2 := by
      intro c
      simp only [rowPieces, List.forall_mem_cons]
      exact ⟨fun h => ⟨h.2.2.1, h.2.2.2.2.1⟩, fun h =>
        ⟨hempty, hempty, h.1, hempty, h.2, hempty, List.forall_mem_nil _⟩⟩
    simp only [StatusTable.pieces, List.forall_mem_flatMap, hrow]
    rfl

theorem isText_tablePieces_iff {first second : Bytes} (hfirst : IsText first)
    (hsecond : IsText second) {body : List HtmlPiece} :
    (∀ p ∈ tablePieces first second body, IsText p.1) ↔ ∀ p ∈ body, IsText p.1 := by
  have hempty : IsText (lit "") := trivial
  have hheading : ∀ p ∈ headingPieces first second, IsText p.1 := by
    simp only [headingPieces, List.forall_mem_cons]
    exact ⟨hempty, hempty, hempty, hfirst, hempty, hsecond, hempty, List.forall_mem_nil _⟩
  simp only [tablePieces, List.forall_mem_append]
  exact ⟨fun h => h.1.2, fun h => ⟨⟨hheading, h⟩, by decide⟩⟩

theorem isText_headPieces (n : Nat) : ∀ p ∈ headPieces n, IsText p.1 := by
  have hnumber : IsText (lit "Number of request: " ++ decimal n) := by
    refine isText_of_not_mem fun h => ?_
    rcases List.mem_append.mp h with h | h
    · exact absurd h (by decide)
    · exact absurd ((decimal_spec n).2.1 _ h) (by decide)
  have hplain : ∀ t ∈ [lit "", lit "Server Status"], IsText t := by decide
  have hpieces : ∀ p ∈ headPieces n, p.1 ∈ [lit "", lit "Server Status"] ∨
      p.1 = lit "Number of request: " ++ decimal n := by
    simp [headPieces]
  intro p hp
  rcases hpieces p hp with ht | ht
  · exact hplain _ ht
  · exact ht ▸ hnumber

/-- The texts of the log that the page shows. -/
def StatusPage.recordedTexts (page : StatusPage) : List Bytes :=
  page.requests.entries.map Prod.fst ++ page.prefixes.entries.flatMap fun pre => [pre.1, pre.2]

/-- The page adds no text that opens markup. -/
theorem StatusPage.isText_pieces_iff (page : StatusPage) :
    (∀ p ∈ page.pieces, IsText p.1) ↔ ∀ t ∈ page.recordedTexts, IsText t := by
  have hrequests : (∀ p ∈ tablePieces "URL" "Response Code"
      (page.requests.pieces requestCells "<td colspan='2'>" "No Request"), IsText p.1) ↔
      ∀ t ∈ page.requests.entries.map Prod.fst, IsText t := by
    rw [isText_tablePieces_iff (by decide) (by decide),
      StatusTable.isText_pieces_iff requestCells _ (by decide), List.forall_mem_map,
      List.forall_mem_map]
    exact forall₂_congr fun request _ => and_iff_left (isText_decimal request.2)
  have hprefixes : (∀ p ∈ tablePieces "Prefix" "Handler"
      (page.prefixes.pieces id "<td colspan= '2'>" "Empty"), IsText p.1) ↔
      ∀ t ∈ page.prefixes.entries.flatMap fun pre => [pre.1, pre.2], IsText t := by
    rw [isText_tablePieces_iff (by decide) (by decide),
      StatusTable.isText_pieces_iff id _ (by decide), List.map_id, List.forall_mem_flatMap]
    simp
  simp only [StatusPage.pieces, StatusPage.recordedTexts, List.forall_mem_append, hrequests,
    hprefixes]
  exact ⟨fun h => ⟨h.1.1.1.2, h.1.2⟩,
    fun h => ⟨⟨⟨⟨isText_headPieces _, h.1⟩, by decide⟩, h.2⟩, by decide⟩⟩

/-! ## Its tables -/

/-- What stands between the tags of a row. -/
def rowSegment (cells : Bytes × Bytes) : List HtmlPiece :=
  [("", "<td>"), (cells.1, "</td>"), ("", "<td>"), (cells.2, "</td>"), ("", "</tr>")]

theorem between_rowPieces (l : List (Bytes × Bytes)) (rest : List HtmlPiece) :
    between "<tr>" "</tr>" (l.flatMap rowPieces ++ rest) =
      l.map rowSegment ++ between "<tr>" "</tr>" rest := by
  induction l with
  | nil => rfl
  | cons cells l ih =>
    rw [List.flatMap_cons, List.append_assoc, List.map_cons, List.cons_append, ← ih]
    rfl

theorem cells_rowSegment (reader : TextReader) (cells : Bytes × Bytes) :
    reader.cells (rowSegment cells) = [reader.text cells.1, reader.text cells.2] := by
  have hsegments : between "<td>" "</td>" (rowSegment cells) =
      [[(cells.1, lit "</td>")], [(cells.2, lit "</td>")]] := rfl
  rw [TextReader.cells, hsegments]
  simp

/-- The rows with cells, behind the headings: none for the placeholder, whose cell is
not in a row. -/
theorem rows_tablePieces (reader : TextReader) (first second : Bytes) {α : Type}
    (cells : α → Bytes × Bytes) {td : Bytes} (htd : td ≠ lit "<tr>") (none : Bytes)
    (t : StatusTable α) :
    reader.rows ((headingPieces first second).tail ++ t.pieces cells td none ++
      [([], lit "</table>")]) =
      (t.entries.map cells).map fun c => [reader.text c.1, reader.text c.2] := by
  have hheading : ∀ rest, between "<tr>" "</tr>" ((headingPieces first second).tail ++ rest) =
      ((headingPieces first second).tail.tail) :: between "<tr>" "</tr>" rest := fun rest => rfl
  have hnone : reader.cells (headingPieces first second).tail.tail = [] := rfl
  rw [List.append_assoc, TextReader.rows, hheading, List.map_cons, hnone, List.filter_cons,
    if_neg (by decide)]
  cases t with
  | placeholder =>
    have hrow : between "<tr>" "</tr>" (StatusTable.placeholder.pieces cells td none ++
        [([], lit "</table>")]) = [[([], lit "</table>")]] := by
      rw [StatusTable.pieces, List.cons_append, between, if_neg (by decide), List.cons_append,
        between, if_neg htd]
      rfl
    rw [hrow]
    rfl
  | rows l =>
    have hend : between "<tr>" "</tr>" [([], lit "</table>")] = [] := rfl
    rw [StatusTable.pieces, between_rowPieces, hend, List.append_nil, List.map_map,
      List.filter_eq_self.mpr]
    · exact List.map_congr_left fun c _ => cells_rowSegment reader c
    · intro row hrow
      obtain ⟨c, -, rfl⟩ := List.mem_map.mp hrow
      rw [Function.comp_apply, cells_rowSegment]
      rfl

theorem between_tablePieces (first second : Bytes) {body : List HtmlPiece}
    (h : ∀ p ∈ body, p.2 ∈ tableTags) (rest : List HtmlPiece) :
    between "<table>" "</table>" (tablePieces first second body ++ rest) =
      ((headingPieces first second).tail ++ body ++ [([], lit "</table>")]) ::
        between "<table>" "</table>" rest := by
  have hsegment : ∀ p ∈ (headingPieces first second).tail ++ body,
      p.2 ≠ lit "<table>" ∧ p.2 ≠ lit "</table>" := fun p hp =>
    (tableTags_spec _ ((List.mem_append.mp hp).elim (tags_headingPieces _ _ p) (h p))).2
  rw [tablePieces_eq, List.cons_append, List.append_assoc, List.singleton_append,
    between_segment (by decide) hsegment]

/-- **What is read from the two tables of a page**, if no text opens markup. -/
theorem StatusPage.tables_text (reader : TextReader) {page : StatusPage}
    (h : ∀ t ∈ page.recordedTexts, IsText t) : reader.tables page.text =
      [page.requests.entries.map fun request =>
          [reader.text request.1, reader.text (decimal request.2)],
        page.prefixes.entries.map fun pre => [reader.text pre.1, reader.text pre.2]] := by
  have hhead : ∀ p ∈ headPieces page.numRequest.toNat, p.2 ≠ lit "<table>" := fun p hp =>
    (headTags_spec _ (tags_headPieces _ p hp)).2
  have hrest : between "<table>" "</table>" [([], lit "</body>"), ([], lit "</html>")] = [] := rfl
  rw [TextReader.tables, page.text_eq_render,
    htmlPieces_render page.isTag_pieces (page.isText_pieces_iff.mpr h), StatusPage.pieces]
  simp only [List.append_assoc]
  rw [between_append hhead,
    between_tablePieces _ _ (StatusTable.tags_pieces _ tableTags_placeholders.1 _ _),
    between_append (by decide),
    between_tablePieces _ _ (StatusTable.tags_pieces _ tableTags_placeholders.2 _ _), hrest]
  rw [List.map_cons, List.map_singleton, rows_tablePieces _ _ _ _ (by decide),
    rows_tablePieces _ _ _ _ (by decide), List.map_map, List.map_map]
  rfl

/-! ## What a reader finds -/

/-- The page with the same tables, and nothing where a recorded text stands. -/
def StatusPage.blank (page : StatusPage) : StatusPage :=
  { page with
    requests := page.requests.map fun request => ("", request.2)
    prefixes := page.prefixes.map fun _ => ("", "") }

/-- The tables of the page read as the log, and its markup is that of the page
without the texts of the log. -/
structure ShowsLog (reader : TextReader) (recorder : StatusRecorder) (page : StatusPage) :
    Prop where
  tables : reader.tables page.text =
    [recorder.urlResponseList.map fun request => [request.1, decimal request.2],
      recorder.prefixHandlerList.map fun pre => [pre.1, pre.2]]
  markup : markups page.text = markups page.blank.text

theorem StatusTable.map_snd_pieces {α : Type} (cells : α → Bytes × Bytes) (td none : Bytes)
    (f : α → α) (t : StatusTable α) :
    ((t.map f).pieces cells td none).map Prod.snd = (t.pieces cells td none).map Prod.snd := by
  cases t with
  | placeholder => rfl
  | rows l =>
    simp only [StatusTable.map, StatusTable.pieces, List.map_flatMap, List.flatMap_map]
    rfl

/-- The tags of a page do not depend on the texts of the log. -/
theorem StatusPage.map_snd_blank (page : StatusPage) :
    page.blank.pieces.map Prod.snd = page.pieces.map Prod.snd := by
  simp only [StatusPage.pieces, tablePieces, List.map_append, StatusPage.blank,
    StatusTable.map_snd_pieces requestCells, StatusTable.map_snd_pieces id]

theorem StatusTable.entries_map {α β : Type} (f : α → β) (t : StatusTable α) :
    (t.map f).entries = t.entries.map f := by
  cases t <;> rfl

theorem StatusPage.isText_blank (page : StatusPage) :
    ∀ t ∈ page.blank.recordedTexts, IsText t := by
  simp only [StatusPage.recordedTexts, StatusPage.blank, StatusTable.entries_map,
    List.forall_mem_append, List.forall_mem_map, List.forall_mem_flatMap]
  exact ⟨fun _ _ => trivial, fun _ _ => by simp [lit, IsText]⟩

/-- The markup of the page is its own exactly if no text of the log opens markup. -/
theorem StatusPage.markups_text_iff (page : StatusPage) :
    markups page.text = markups page.blank.text ↔ ∀ t ∈ page.recordedTexts, IsText t := by
  have hblank : markups page.blank.text = page.pieces.map Prod.snd := by
    rw [StatusPage.text_eq_render, markups, htmlPieces_render page.blank.isTag_pieces
      (page.blank.isText_pieces_iff.mpr page.isText_blank), page.map_snd_blank]
  rw [hblank, page.text_eq_render, markups_render_iff page.isTag_pieces, page.isText_pieces_iff]

/-! ## The handler -/

/-- The texts of the log. -/
def StatusRecorder.recordedTexts (recorder : StatusRecorder) : List Bytes :=
  recorder.urlResponseList.map Prod.fst ++ recorder.prefixHandlerList.flatMap fun pre =>
    [pre.1, pre.2]

/-- The handler, with nothing recorded while it runs. -/
theorem run_readStatus (recorder : StatusRecorder) : (readStatus.run execRecorder recorder).1 =
    if intOfSize recorder.urlResponseList.length < 0 then .error .exit
    else .ok (some (statusPage (intOfSize recorder.urlResponseList.length)
      recorder.urlResponseList recorder.prefixHandlerList)) := by
  have hrun : ∀ n, ((readRequests n).run execRecorder recorder).1 = if n < 0 then .error .exit
      else .ok (some (statusPage n recorder.urlResponseList recorder.prefixHandlerList)) := by
    intro n
    unfold readRequests
    by_cases hneg : n < 0
    · rw [if_pos hneg, if_pos hneg]
      rfl
    · rw [if_neg hneg, if_neg hneg]
      rfl
  rw [readStatus, Prog.run]
  exact hrun _

section Handler

variable {reader : TextReader} {recorder : StatusRecorder} {n : Int}

/-- A number reads as its digits. -/
theorem text_decimal (c : Nat) : reader.text (decimal c) = decimal c := by
  refine reader.plain _ fun d hd => ?_
  have hdigit := (decimal_spec c).2.1 d hd
  unfold IsDigit at hdigit
  simp only [UInt8.le_iff_toNat_le, UInt8.lt_iff_toNat_lt, ne_eq, ← UInt8.toNat_inj] at *
  simp at *
  omega

/-- The tables read as their rows exactly if every text in them reads as what it is. -/
theorem StatusPage.tables_text_iff {page : StatusPage}
    (h : ∀ t ∈ page.recordedTexts, IsText t) : reader.tables page.text =
      [page.requests.entries.map fun request => [request.1, decimal request.2],
        page.prefixes.entries.map fun pre => [pre.1, pre.2]] ↔
    ∀ t ∈ page.recordedTexts, reader.text t = t := by
  simp only [StatusPage.tables_text reader h, StatusPage.recordedTexts, List.cons.injEq,
    List.map_inj_left, text_decimal, and_true, List.forall_mem_append, List.forall_mem_map,
    List.forall_mem_flatMap, List.forall_mem_cons, List.not_mem_nil]
  simp

/-- The rows of the page are the log, but for the requests if their number reads 0. -/
theorem entries_statusPage (h : n = 0 → recorder.urlResponseList = []) :
    (statusPage n recorder.urlResponseList recorder.prefixHandlerList).requests.entries =
        recorder.urlResponseList ∧
      (statusPage n recorder.urlResponseList recorder.prefixHandlerList).prefixes.entries =
        recorder.prefixHandlerList := by
  unfold statusPage
  constructor
  · by_cases hzero : n = 0
    · simp only [if_pos hzero, h hzero]
      rfl
    · simp only [if_neg hzero]
      rfl
  · by_cases hnil : recorder.prefixHandlerList = []
    · simp only [hnil]
      rfl
    · simp only [if_neg hnil]
      rfl

/-- The page shows the log. -/
theorem showsLog_statusPage_iff : ShowsLog reader recorder
      (statusPage n recorder.urlResponseList recorder.prefixHandlerList) ↔
    (n = 0 → recorder.urlResponseList = []) ∧
      ∀ t ∈ recorder.recordedTexts, IsText t ∧ reader.text t = t := by
  have hrecorded : (n = 0 → recorder.urlResponseList = []) →
      (statusPage n recorder.urlResponseList recorder.prefixHandlerList).recordedTexts =
        recorder.recordedTexts := by
    intro hzero
    rw [StatusPage.recordedTexts, (entries_statusPage hzero).1, (entries_statusPage hzero).2]
    rfl
  constructor
  · rintro ⟨htables, hmarkup⟩
    have htexts := (StatusPage.markups_text_iff _).mp hmarkup
    have hzero : n = 0 → recorder.urlResponseList = [] := by
      rintro rfl
      rw [StatusPage.tables_text reader htexts] at htables
      exact List.map_eq_nil_iff.mp (List.cons.inj htables).1.symm
    have hreads := (StatusPage.tables_text_iff htexts).mp (by
      rw [(entries_statusPage hzero).1, (entries_statusPage hzero).2]
      exact htables)
    rw [hrecorded hzero] at htexts hreads
    exact ⟨hzero, fun t ht => ⟨htexts t ht, hreads t ht⟩⟩
  · rintro ⟨hzero, h⟩
    rw [← hrecorded hzero] at h
    have htexts := fun t ht => (h t ht).1
    have htables := (StatusPage.tables_text_iff htexts).mpr fun t ht => (h t ht).2
    rw [(entries_statusPage hzero).1, (entries_statusPage hzero).2] at htables
    exact ⟨htables, (StatusPage.markups_text_iff _).mpr htexts⟩

end Handler

/-- **The status page shows the log exactly if every text of the log opens no markup
and reads as what it is**, and the length of the log as an `int` is not negative,
and zero for the empty log only. -/
theorem showsLog_iff (reader : TextReader) (recorder : StatusRecorder) :
    (∃ page, (readStatus.run execRecorder recorder).1 = .ok (some page) ∧
      ShowsLog reader recorder page) ↔
    (0 ≤ intOfSize recorder.urlResponseList.length ∧
      (intOfSize recorder.urlResponseList.length = 0 → recorder.urlResponseList = [])) ∧
    ∀ t ∈ recorder.recordedTexts, IsText t ∧ reader.text t = t := by
  rw [run_readStatus]
  generalize intOfSize recorder.urlResponseList.length = n
  by_cases hneg : n < 0
  · rw [if_pos hneg]
    exact ⟨fun ⟨_, h, _⟩ => (nomatch h), fun h => absurd hneg (not_lt.mpr h.1.1)⟩
  · rw [if_neg hneg, and_assoc, ← showsLog_statusPage_iff]
    refine ⟨fun ⟨page, hpage, h⟩ => ⟨not_lt.mp hneg, ?_⟩, fun h => ⟨_, rfl, h.2⟩⟩
    obtain rfl := Option.some.inj (Except.ok.inj hpage)
    exact h

/-- A request for `/<b>x</b>`, which is recorded: whoever reads the page finds two more
tags, and not the log. One for `/&lt;` is not found if its reference is read. -/
theorem not_showsLog_markup :
    (Request.mk' [] "GET /<b>x</b> HTTP/1.1\r\n\r\n").uri = "/<b>x</b>" ∧
      markups (statusPage 1 [("/<b>x</b>", 404)] []).blank.text ≠
        markups (statusPage 1 [("/<b>x</b>", 404)] []).text ∧
      ∀ reader : TextReader,
        (¬ ∃ page, (readStatus.run execRecorder ⟨[("/<b>x</b>", 404)], []⟩).1 = .ok (some page) ∧
          ShowsLog reader ⟨[("/<b>x</b>", 404)], []⟩ page) ∧
        (reader.text "/&lt;" = "/<" →
          ¬ ∃ page, (readStatus.run execRecorder ⟨[("/&lt;", 404)], []⟩).1 = .ok (some page) ∧
            ShowsLog reader ⟨[("/&lt;", 404)], []⟩ page) := by
  have hnot : ∀ (reader : TextReader) (url : Bytes), ¬ (IsText url ∧ reader.text url = url) →
      ¬ ∃ page, (readStatus.run execRecorder ⟨[(url, 404)], []⟩).1 = .ok (some page) ∧
        ShowsLog reader ⟨[(url, 404)], []⟩ page := by
    rintro reader url hurl ⟨page, hrun, h⟩
    have hpage : (readStatus.run execRecorder ⟨[(url, 404)], []⟩).1 =
        .ok (some (statusPage 1 [(url, 404)] [])) := by
      have hsize : intOfSize 1 = 1 := (intOfSize_eq_iff 1).mpr (by omega)
      rw [run_readStatus, List.length_singleton, hsize, if_neg (by decide)]
    obtain rfl := Option.some.inj (Except.ok.inj (hpage.symm.trans hrun))
    exact hurl ((showsLog_statusPage_iff.mp h).2 url List.mem_cons_self)
  refine ⟨by decide +kernel, by decide +kernel, fun reader => ⟨hnot reader _ ?_, fun hlt => ?_⟩⟩
  · exact fun h => absurd h.1 (by decide)
  · refine hnot reader _ fun h => ?_
    exact absurd (hlt.symm.trans h.2) (by decide)

end GittyUp
