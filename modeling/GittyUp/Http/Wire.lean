import GittyUp.Http.Lines
import GittyUp.Http.Response

/-!
# What a client reads of a response

The text of a response is cut at the first blank line, its head is split into
lines and each header line at the first `": "`. `generateResponse_parses`: this
gives back the status code, the headers as they were last set, and the body.
-/

namespace GittyUp

open Lib

/-- The headers are set one after another. -/
def Response.setHeaders (r : Response) (sets : List (Bytes × Bytes)) : Response :=
  sets.foldl (fun r h => r.setHeader h.1 h.2) r

/-- The value that was set last for a name. -/
def lastSet (sets : List (Bytes × Bytes)) (name : Bytes) : Option Bytes :=
  sets.reverse.lookup name

/-- The header lines of a head as fields. -/
def parseFields (lines : List Bytes) : Option (List (Bytes × Bytes)) :=
  lines.mapM (cutAt (lit ": "))

/-! ## The response -/

theorem Response.setHeaders_append (r : Response) (sets sets' : List (Bytes × Bytes)) :
    r.setHeaders (sets ++ sets') = (r.setHeaders sets).setHeaders sets' :=
  List.foldl_append

/-- The header map holds what was set last. -/
theorem Response.lookup_setHeaders (code : Nat) (body : Bytes) (sets : List (Bytes × Bytes))
    (name : Bytes) : ((Response.mk' code body).setHeaders sets).responseHeaders.lookup name =
      lastSet sets name := by
  induction sets using List.reverseRecOn with
  | nil => rfl
  | append_singleton sets h ih =>
    rw [Response.setHeaders_append, lastSet, List.reverse_append]
    show (AList.insert h.1 h.2 ((Response.mk' code body).setHeaders sets).responseHeaders).lookup
      name = List.lookup name (h :: sets.reverse)
    rw [List.lookup_cons]
    by_cases hname : name = h.1
    · subst hname
      rw [AList.lookup_insert, BEq.rfl]
    · rw [AList.lookup_insert_ne hname, ih, beq_false_of_ne hname]
      rfl

/-- Only the headers change. -/
theorem Response.setHeaders_eq (r : Response) (sets : List (Bytes × Bytes)) :
    (r.setHeaders sets).statusCode = r.statusCode ∧
      (r.setHeaders sets).responseBody = r.responseBody := by
  induction sets generalizing r with
  | nil => exact ⟨rfl, rfl⟩
  | cons h sets ih => exact ih (r.setHeader h.1 h.2)

/-! ## Its lines -/

theorem oneLine_of_isDigit {ds : Bytes} (h : ∀ d ∈ ds, IsDigit d) : OneLine ds := by
  intro d hd
  have hdigit := h d hd
  constructor
  · rintro rfl
    exact absurd hdigit (by decide)
  · rintro rfl
    exact absurd hdigit (by decide)

theorem oneLine_statusWord (code : Nat) : OneLine (Response.statusWord code) := by
  unfold Response.statusWord
  cases hcode : responseCodes.lookup code with
  | none => simp [OneLine, lit]
  | some word =>
    obtain ⟨before, after, htable, -⟩ := List.lookup_eq_some_iff.mp hcode
    have hall : ∀ p ∈ responseCodes, OneLine p.2 := by decide
    exact hall (code, word) (by rw [htable]; simp)

/-- The status line without its line end. -/
def statusText (code : Nat) : Bytes :=
  lit "HTTP/1.1 " ++ decimal code ++ lit " " ++ Response.statusWord code

/-- A header line without its line end. -/
def fieldText (h : Bytes × Bytes) : Bytes := h.1 ++ lit ": " ++ h.2

theorem isLine_statusText (code : Nat) : IsLine (statusText code) := by
  constructor
  · simp [statusText, lit]
  · have hdigits := oneLine_of_isDigit (decimal_spec code).2.1
    exact (((show OneLine (lit "HTTP/1.1 ") by decide).append hdigits).append
      (show OneLine (lit " ") by decide)).append (oneLine_statusWord code)

theorem IsHeader.isLine {h : Bytes × Bytes} (hh : IsHeader h) : IsLine (fieldText h) := by
  obtain ⟨hne, hname, -, hvalue⟩ := hh
  constructor
  · simp [fieldText, hne]
  · exact (hname.append (show OneLine (lit ": ") by decide)).append hvalue

/-- A header line is cut behind its name. -/
theorem IsHeader.cutAt {h : Bytes × Bytes} (hh : IsHeader h) :
    cutAt (lit ": ") (fieldText h) = some h := by
  refine cutAt_append (by simp [lit]) ?_
  rw [List.append_assoc]
  exact noneBefore_word hh.2.2.1

/-- The header lines are read back as the headers. -/
theorem parseFields_map {headers : List (Bytes × Bytes)} (h : ∀ h ∈ headers, IsHeader h) :
    parseFields (headers.map fieldText) = some headers := by
  induction headers with
  | nil => rfl
  | cons header headers ih =>
    obtain ⟨hheader, hheaders⟩ := List.forall_mem_cons.mp h
    have hrest := ih hheaders
    unfold parseFields at hrest ⊢
    rw [List.map_cons, List.mapM_cons, hheader.cutAt, hrest]
    rfl

/-- The text of a response: its lines, the blank line, and the body. -/
theorem Response.generateResponse_eq (r : Response) (order : List (Bytes × Bytes)) :
    r.generateResponse order =
      terminated (statusText r.statusCode :: order.map fieldText) ++ [cr, lf] ++
        r.responseBody := by
  have hcrlf : lit "\r\n" = [cr, lf] := rfl
  unfold generateResponse generateStatusLine generateHeaderLines
  rw [terminated_cons, terminated, List.flatMap_map, statusText, hcrlf]
  simp only [fieldText, List.append_assoc]

/-- Every header is a header line: in particular no name or value has a line
break. -/
def Response.Clean (resp : Response) : Prop :=
  ∀ name value, resp.responseHeaders.lookup name = some value → IsHeader (name, value)

theorem Response.getHeader_setHeader (resp : Response) (name value : Bytes) :
    (resp.setHeader name value).getHeader name = value := by
  show ((AList.insert name value resp.responseHeaders).lookup name).getD (lit "") = value
  rw [AList.lookup_insert]
  rfl

theorem Response.getHeader_setHeader_of_ne (resp : Response) {name name' : Bytes}
    (h : name' ≠ name) (value : Bytes) :
    (resp.setHeader name value).getHeader name' = resp.getHeader name' := by
  show ((AList.insert name value resp.responseHeaders).lookup name').getD (lit "") = _
  rw [AList.lookup_insert_ne h]
  rfl

/-- A header with one of the names that the handlers write. -/
theorem isHeader_of_name {name value : Bytes}
    (hname : name ≠ [] ∧ OneLine name ∧ (':' : Byte) ∉ name) (h : OneLine value) :
    IsHeader (name, value) := ⟨hname.1, hname.2.1, hname.2.2, h⟩

theorem isHeader_contentType {value : Bytes} (h : OneLine value) :
    IsHeader (lit "Content-Type", value) :=
  isHeader_of_name (by decide) h

theorem Response.clean_mk' (statusCode : Nat) (body : Bytes) :
    (Response.mk' statusCode body).Clean := fun _ _ hlookup => by
  cases hlookup

/-- A header that fits into a line keeps the response clean. -/
theorem Response.Clean.setHeader {resp : Response} (h : resp.Clean) {name value : Bytes}
    (hheader : IsHeader (name, value)) : (resp.setHeader name value).Clean := by
  intro name' value' hlookup
  change (AList.insert name value resp.responseHeaders).lookup name' = some value' at hlookup
  by_cases heq : name' = name
  · subst heq
    rw [AList.lookup_insert] at hlookup
    exact Option.some.inj hlookup ▸ hheader
  · rw [AList.lookup_insert_ne heq] at hlookup
    exact h name' value' hlookup

/-- The header lines of a clean response are well-formed. -/
theorem Response.Clean.headerBlock {resp : Response} (h : resp.Clean)
    {order : List (Bytes × Bytes)} (horder : resp.responseHeaders.IteratedAs order) :
    ∃ headers : List (Bytes × Bytes), (∀ h ∈ headers, IsHeader h) ∧
      Response.generateHeaderLines order = headers.flatMap headerLine ++ [cr, lf] :=
  ⟨order, fun _ hheader => h _ _ ((horder.mem_iff _ _).mp hheader), rfl⟩

/-! ## The client -/

/-- **Generated responses parse back**, in any iteration order of the header
map, for any history of the headers and any body. -/
theorem generateResponse_parses (code : Nat) {sets : List (Bytes × Bytes)}
    (hsets : ∀ h ∈ sets, IsHeader h) (body : Bytes) {order : List (Bytes × Bytes)}
    (horder : ((Response.mk' code body).setHeaders sets).responseHeaders.IteratedAs order) :
    ∃ head lines fields,
      cutAt (lit "\r\n\r\n") (((Response.mk' code body).setHeaders sets).generateResponse order) =
        some (head, body) ∧
      splitLines head =
        (lit "HTTP/1.1 " ++ decimal code ++ lit " " ++ Response.statusWord code) :: lines ∧
      digitsValue (decimal code) = code ∧
      parseFields lines = some fields ∧ (fields.map Prod.fst).Nodup ∧
      ∀ name value, (name, value) ∈ fields ↔ lastSet sets name = some value := by
  have hfields : ∀ name value, (name, value) ∈ order ↔ lastSet sets name = some value := by
    intro name value
    rw [horder.mem_iff, Response.lookup_setHeaders]
  have horderHeader : ∀ h ∈ order, IsHeader h := by
    intro h hh
    obtain ⟨before, after, hrev, -⟩ := List.lookup_eq_some_iff.mp ((hfields h.1 h.2).mp hh)
    refine hsets h (List.mem_reverse.mp ?_)
    rw [hrev]
    simp
  have hlines : ∀ line ∈ statusText code :: order.map fieldText, IsLine line := by
    refine List.forall_mem_cons.mpr ⟨isLine_statusText code, ?_⟩
    rintro line hline
    obtain ⟨h, hh, rfl⟩ := List.mem_map.mp hline
    exact (horderHeader h hh).isLine
  obtain ⟨hcode, hbody⟩ := (Response.mk' code body).setHeaders_eq sets
  have htext := ((Response.mk' code body).setHeaders sets).generateResponse_eq order
  rw [hcode, hbody] at htext
  change _ = terminated (statusText code :: order.map fieldText) ++ [cr, lf] ++ body at htext
  have hblank := noneBefore_blank hlines body
  rw [terminated_eq_joinLines (List.cons_ne_nil _ _)] at htext hblank
  refine ⟨joinLines (statusText code :: order.map fieldText), order.map fieldText, order, ?_,
    splitLines_joinLines (List.cons_ne_nil _ _) fun line hline => (hlines line hline).2,
    (decimal_spec code).2.2, ?_, horder.nodup, hfields⟩
  · have hsplit : joinLines (statusText code :: order.map fieldText) ++ [cr, lf] ++ [cr, lf] ++
        body = joinLines (statusText code :: order.map fieldText) ++ lit "\r\n\r\n" ++ body := by
      simp [lit]
    rw [htext, hsplit]
    refine cutAt_append (by simp [lit]) ?_
    rw [← hsplit]
    show NoneBefore [cr, lf, cr, lf] _ _
    simpa using hblank
  · exact parseFields_map horderHeader

/-- A header that is set twice, and a body that looks like a header line behind
a blank line. -/
theorem generateResponse_parses_twice :
    ∃ head lines fields,
      cutAt (lit "\r\n\r\n") (((Response.mk' 200 "\r\n\r\nA: 3").setHeaders
          [("A", "1"), ("B", "x"), ("A", "2")]).generateResponse [("B", "x"), ("A", "2")]) =
        some (head, lit "\r\n\r\nA: 3") ∧
      splitLines head =
        (lit "HTTP/1.1 " ++ decimal 200 ++ lit " " ++ Response.statusWord 200) :: lines ∧
      digitsValue (decimal 200) = 200 ∧
      parseFields lines = some fields ∧ (fields.map Prod.fst).Nodup ∧
      ∀ name value, (name, value) ∈ fields ↔
        lastSet [("A", "1"), ("B", "x"), ("A", "2")] name = some value := by
  refine generateResponse_parses 200 ?_ _ ?_
  · decide
  · show List.Perm _ _
    decide

end GittyUp
