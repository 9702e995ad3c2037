import GittyUp.Http.Wire

/-!
# A client that reads a response

`readResponse` cuts a text at its first blank line, its head into lines, and each
header line at its first `": "`. It reads a response whose headers fit into lines
back as it is (`readResponse_generateResponse`).
-/

namespace GittyUp

open Lib

/-- What a client reads: the status line, the headers and the body. -/
structure ReadResponse where
  statusLine : Bytes
  headers : List (Bytes × Bytes)
  body : Bytes
  deriving DecidableEq

/-- What a client makes of a text, if this is a response. -/
def readResponse (text : Bytes) : Option ReadResponse :=
  match cutAt (lit "\r\n\r\n") text with
  | none => none
  | some (head, body) =>
    match splitLines head with
    | [] => none
    | statusLine :: lines => (parseFields lines).map fun headers => ⟨statusLine, headers, body⟩

/-- The text of a response, cut at its first blank line. -/
theorem cutAt_generateResponse {r : Response} {order : List (Bytes × Bytes)}
    (h : ∀ header ∈ order, IsHeader header) :
    cutAt (lit "\r\n\r\n") (r.generateResponse order) =
      some (joinLines (statusText r.statusCode :: order.map fieldText), r.responseBody) := by
  have hlines : ∀ line ∈ statusText r.statusCode :: order.map fieldText, IsLine line := by
    refine List.forall_mem_cons.mpr ⟨isLine_statusText _, fun line hline => ?_⟩
    obtain ⟨header, hheader, rfl⟩ := List.mem_map.mp hline
    exact (h header hheader).isLine
  have hblank := noneBefore_blank hlines r.responseBody
  have htext := r.generateResponse_eq order
  rw [terminated_eq_joinLines (List.cons_ne_nil _ _)] at htext hblank
  rw [List.length_append, List.length_cons, List.length_singleton, Nat.add_sub_cancel] at hblank
  have hcut : joinLines (statusText r.statusCode :: order.map fieldText) ++ [cr, lf] ++ [cr, lf] ++
      r.responseBody = joinLines (statusText r.statusCode :: order.map fieldText) ++
        lit "\r\n\r\n" ++ r.responseBody := by
    simp [lit]
  rw [hcut] at htext hblank
  rw [htext]
  exact cutAt_append (by simp [lit]) hblank

/-- **A client reads what the server has generated**, in any order of the headers. -/
theorem readResponse_generateResponse {r : Response} (h : r.Clean) {order : List (Bytes × Bytes)}
    (horder : r.responseHeaders.IteratedAs order) :
    readResponse (r.generateResponse order) =
      some ⟨statusText r.statusCode, order, r.responseBody⟩ := by
  have hheaders : ∀ header ∈ order, IsHeader header :=
    fun _ hheader => h _ _ ((horder.mem_iff _ _).mp hheader)
  have hlines : ∀ line ∈ statusText r.statusCode :: order.map fieldText, OneLine line := by
    refine List.forall_mem_cons.mpr ⟨(isLine_statusText _).2, fun line hline => ?_⟩
    obtain ⟨header, hheader, rfl⟩ := List.mem_map.mp hline
    exact (hheaders header hheader).isLine.2
  rw [readResponse, cutAt_generateResponse hheaders]
  dsimp only
  rw [splitLines_joinLines (List.cons_ne_nil _ _) hlines]
  dsimp only
  rw [parseFields_map hheaders]
  rfl

/-! ## Headers that are set later -/

theorem Response.Clean.setHeaders {r : Response} (h : r.Clean) {sets : List (Bytes × Bytes)}
    (hsets : ∀ header ∈ sets, IsHeader header) : (r.setHeaders sets).Clean := by
  induction sets generalizing r with
  | nil => exact h
  | cons header sets ih =>
    obtain ⟨hheader, hsets⟩ := List.forall_mem_cons.mp hsets
    exact ih (h.setHeader hheader) hsets

/-- A name that is not among those set keeps its value. -/
theorem Response.lookup_setHeaders_of_not_mem (r : Response) {sets : List (Bytes × Bytes)}
    {name : Bytes} (h : name ∉ sets.map Prod.fst) :
    (r.setHeaders sets).responseHeaders.lookup name = r.responseHeaders.lookup name := by
  induction sets generalizing r with
  | nil => rfl
  | cons header sets ih =>
    obtain ⟨hne, hsets⟩ := not_or.mp (mt List.mem_cons.mpr h)
    refine (ih (r.setHeader header.1 header.2) hsets).trans ?_
    exact AList.lookup_insert_ne hne

/-- Among distinct names, each gets the value that it is set to. -/
theorem Response.lookup_setHeaders_of_mem (r : Response) {sets : List (Bytes × Bytes)}
    (hnodup : (sets.map Prod.fst).Nodup) {header : Bytes × Bytes} (h : header ∈ sets) :
    (r.setHeaders sets).responseHeaders.lookup header.1 = some header.2 := by
  induction sets generalizing r with
  | nil => contradiction
  | cons first sets ih =>
    obtain ⟨hfirst, hnodup⟩ := List.nodup_cons.mp hnodup
    rcases List.mem_cons.mp h with rfl | h
    · refine ((r.setHeader header.1 header.2).lookup_setHeaders_of_not_mem hfirst).trans ?_
      exact AList.lookup_insert _
    · exact ih (r.setHeader first.1 first.2) hnodup h

end GittyUp
