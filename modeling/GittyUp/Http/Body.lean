import GittyUp.Http.Syntax
import GittyUp.Lib.RegexFirst

/-!
# The body of a request

`parse_body` searches for a blank line from which a run of characters other than
line breaks leads to the end of the request. `body_whole_iff`: it finds the body
exactly when the body has no line break.
-/

namespace GittyUp

open Lib Regex

/-- `s` is a request with these header lines and this body. -/
structure IsRequest (s : Bytes) (headers : List (Bytes × Bytes)) (body : Bytes) : Prop where
  line : ∃ method target, RequestLine s method target
    (headers.flatMap headerLine ++ [cr, lf] ++ body)
  header : ∀ h ∈ headers, IsHeader h

/-- The headers and the body of a valid request. -/
theorem mk'_of_valid {stale s : Bytes} (h : (Request.mk' stale s).valid = true) :
    (Request.mk' stale s).requestHeaders = parseHeaders s ∧
      (Request.mk' stale s).requestBody = parseBody s := by
  unfold Request.mk' at *
  cases hm : statusLineRegex.search s with
  | none =>
    rw [hm] at h
    contradiction
  | some m => exact ⟨rfl, rfl⟩

theorem IsRequest.valid {s : Bytes} {headers : List (Bytes × Bytes)} {body : Bytes}
    (h : IsRequest s headers body) (stale : Bytes) : (Request.mk' stale s).valid = true := by
  obtain ⟨method, target, hline⟩ := h.line
  exact (valid_iff_requestLine stale s).mpr ⟨method, target, _, hline⟩

/-- A blank line ends the head of a request. -/
theorem IsRequest.blank_line {s : Bytes} {headers : List (Bytes × Bytes)} {body : Bytes}
    (h : IsRequest s headers body) : ∃ head, s = head ++ lit "\r\n\r\n" ++ body := by
  obtain ⟨method, target, -, -, major, minor, -, -, rfl⟩ := h.line
  rcases List.eq_nil_or_concat headers with rfl | ⟨before, last, rfl⟩
  · exact ⟨method ++ lit " " ++ target ++ lit " HTTP/" ++ [major] ++ lit "." ++ [minor],
      by simp [lit]⟩
  · refine ⟨method ++ lit " " ++ target ++ lit " HTTP/" ++ [major] ++ lit "." ++ [minor] ++
      [cr, lf] ++ before.flatMap headerLine ++ (last.1 ++ lit ": " ++ last.2), ?_⟩
    simp [lit, headerLine]

/-- The first match with a name gives its value. -/
theorem lookup_insertMatches (ms : List (Match Byte)) (name : Bytes) :
    (insertMatches ms).lookup name = (ms.map fun m => (m.str 1, m.str 2)).lookup name := by
  have hfold : ∀ map : UnorderedMap Bytes Bytes,
      (ms.foldl (fun map iter => map.insertNew (iter.str 1) (iter.str 2)) map).lookup name =
        (map.lookup name).or ((ms.map fun m => (m.str 1, m.str 2)).lookup name) := by
    induction ms with
    | nil => exact fun map => Option.or_none.symm
    | cons m ms ih =>
      intro map
      rw [List.foldl_cons, ih, UnorderedMap.lookup_insertNew, Option.or_assoc, List.map_cons,
        List.lookup_cons]
      by_cases hname : name = m.str 1
      · simp [hname]
      · rw [if_neg hname, beq_false_of_ne hname, Option.none_or]
  rw [insertMatches, hfold, AList.lookup_empty, Option.none_or]

/-! ## The search for the body -/

/-- The words of the body's regex: a blank line and a line, up to the end. -/
theorem accepts_bodyRegex {pre w post : Bytes} :
    bodyRegex.Accepts pre w post ↔
      post = [] ∧ ∃ u, w = lit "\r\n\r\n" ++ u ∧ u ≠ [] ∧ OneLine u := by
  constructor
  · rintro ⟨_, _, rfl, hblank, u, _, rfl, hu, _, _, rfl, ⟨rfl, hpost⟩, rfl⟩
    obtain rfl := accepts_literal.mp hblank
    obtain ⟨hne, hline⟩ := accepts_dot.mp hu
    exact ⟨hpost, u, by simp, hne, hline⟩
  · rintro ⟨rfl, u, rfl, hne, hline⟩
    exact ⟨_, u, rfl, accepts_literal.mpr rfl, u, [], by simp, accepts_dot.mpr ⟨hne, hline⟩,
      [], [], rfl, ⟨rfl, rfl⟩, rfl⟩

/-- Whatever the search finds is the end of the text after its last line feed. -/
theorem accepts_bodyRegex_unique {head body u w v : Bytes} (hbody : OneLine body)
    (htext : head ++ lit "\r\n\r\n" ++ body = u ++ w ++ v) (h : bodyRegex.Accepts u w v) :
    u = head ∧ body ≠ [] := by
  obtain ⟨rfl, x, rfl, hne, hx⟩ := accepts_bodyRegex.mp h
  have hcut : (head ++ [cr, lf, cr]) ++ lf :: body = (u ++ [cr, lf, cr]) ++ lf :: x := by
    simpa [lit] using htext
  obtain ⟨hhead, rfl⟩ := append_cons_cancel_right hbody.lf_not_mem hx.lf_not_mem hcut
  exact ⟨(List.append_cancel_right hhead).symm, hne⟩

/-- The matcher reads a body without line breaks whole. -/
theorem first_bodyRegex {head body : Bytes} (hne : body ≠ []) (hbody : OneLine body) :
    bodyRegex.first ⟨head, lit "\r\n\r\n" ++ body, []⟩ =
      some ⟨head ++ lit "\r\n\r\n" ++ body, [], [(1, body)]⟩ := by
  rw [bodyRegex, concat, first_literal rfl]
  exact first_group_run (w := body) (ordered_plus (deterministic_char _)) rfl within_dot
    (List.append_nil body).symm (by simp) (accepts_dot.mpr ⟨hne, hbody⟩) rfl

/-- `parse_body` returns at most one line. -/
theorem oneLine_parseBody (req : Bytes) : OneLine (parseBody req) := by
  unfold parseBody
  cases hm : bodyRegex.search req with
  | none => exact fun c hc => absurd hc List.not_mem_nil
  | some m =>
    rcases (finds_of_search hm).str_group 0 with hnil | ⟨s, pre, post, hs, hacc, -⟩
    · dsimp only
      rw [hnil]
      exact fun c hc => absurd hc List.not_mem_nil
    · have hmem : ((1 : Nat), s) ∈ [(1, plus true dot)] := hs
      obtain rfl : s = plus true dot := by simpa using hmem
      exact (accepts_dot.mp hacc).2

/-- **`parse_body` on what follows a blank line.** -/
theorem parseBody_eq_iff (head body : Bytes) :
    parseBody (head ++ lit "\r\n\r\n" ++ body) = body ↔ OneLine body := by
  constructor
  · intro h
    rw [← h]
    exact oneLine_parseBody _
  · intro hbody
    by_cases hne : body = []
    · have hnone : bodyRegex.search (head ++ lit "\r\n\r\n" ++ body) = none :=
        search_eq_none_iff.mpr fun u w v htext h =>
          (accepts_bodyRegex_unique hbody htext h).2 hne
      rw [parseBody, hnone, hne]
      rfl
    · rw [parseBody, search, List.append_assoc, searchFrom_skip, List.nil_append,
        searchFrom_of_first (first_bodyRegex hne hbody)]
      · rfl
      · intro u₁ c u₂ hhead w v hwv hacc
        have htext : head ++ lit "\r\n\r\n" ++ body = u₁ ++ w ++ v := by
          rw [List.append_assoc, List.append_assoc, ← hwv, hhead, List.append_assoc]
        have hu := (accepts_bodyRegex_unique hbody htext hacc).1
        have hlen := congrArg List.length hhead
        rw [← hu, List.length_append, List.length_cons] at hlen
        omega

/-- **Exactly the bodies without a line break are delivered whole.** -/
theorem body_whole_iff (stale : Bytes) {s : Bytes} {headers : List (Bytes × Bytes)} {body : Bytes}
    (h : IsRequest s headers body) :
    (Request.mk' stale s).requestBody = body ↔ OneLine body := by
  obtain ⟨head, hs⟩ := h.blank_line
  rw [(mk'_of_valid (h.valid stale)).2, hs, parseBody_eq_iff]

/-- A body of one line. -/
theorem body_whole_one_line :
    (Request.mk' [] "POST / HTTP/1.1\r\nA: b\r\n\r\nc=d").requestBody = "c=d" ↔
      OneLine "c=d" := by
  have h : IsRequest "POST / HTTP/1.1\r\nA: b\r\n\r\nc=d" [("A", "b")] "c=d" :=
    ⟨⟨"POST", "/", .of_eq (by decide)⟩, by decide⟩
  exact body_whole_iff "" h

/-- Of a body of two lines nothing is delivered. -/
theorem body_of_two_lines : IsRequest "POST / HTTP/1.1\r\n\r\na\nb" [] "a\nb" ∧
    (Request.mk' [] "POST / HTTP/1.1\r\n\r\na\nb").requestBody ≠ "a\nb" :=
  ⟨⟨⟨"POST", "/", .of_eq (by decide)⟩, by simp⟩, by decide⟩

end GittyUp
