import GittyUp.Http.Body

/-!
# The headers of a request

`parse_headers` searches the whole request, its body included, for lines that
look like headers, and cuts each at its last `": "`. `headersIn` says what it
finds in a text, line by line. From this follow exactly when the headers that
were sent are read back (`headers_roundTrip_iff`), and when two bodies behind one
head leave the headers alone (`headers_ignore_body_iff`).
-/

namespace GittyUp

open Lib Regex

/-! ## The lines that look like headers -/

/-- The line up to the next line break, if this is a carriage return. -/
def crLine : Bytes → Option Bytes
  | [] => none
  | c :: s => if c = cr then some [] else if c = lf then none else (crLine s).map (c :: ·)

/-- The parts of a line before and after its last `": "`, of those that leave
something on both sides. -/
def splitHeader : Bytes → Option (Bytes × Bytes)
  | [] => none
  | c :: s =>
    match splitHeader s with
    | some (name, value) => some (c :: name, value)
    | none => if (lit ": ").isPrefixOf s ∧ s.drop 2 ≠ [] then some ([c], s.drop 2) else none

/-- The header that begins here, if any. -/
def headerAt (s : Bytes) : Option (Bytes × Bytes) := (crLine s).bind splitHeader

/-- The lines of a text, after line feeds, that look like headers. -/
def headersIn : Bytes → List (Bytes × Bytes)
  | [] => []
  | c :: s => if c = lf then (headerAt s).toList ++ headersIn s else headersIn s

/-- No `": "` in the value has something after it. -/
def NoSeparator (value : Bytes) : Prop := ∀ a b, value = a ++ lit ": " ++ b → b = []

theorem crLine_eq_some_iff {s l : Bytes} :
    crLine s = some l ↔ OneLine l ∧ ∃ rest, s = l ++ cr :: rest := by
  induction s generalizing l with
  | nil => simp [crLine]
  | cons c s ih =>
    unfold crLine
    split_ifs with hcr hlf
    · subst hcr
      constructor
      · intro h
        obtain rfl := Option.some.inj h
        exact ⟨fun c hc => absurd hc List.not_mem_nil, s, rfl⟩
      · rintro ⟨hl, rest, heq⟩
        cases l with
        | nil => rfl
        | cons d l =>
          obtain ⟨rfl, -⟩ := List.cons.inj heq
          exact absurd List.mem_cons_self hl.cr_not_mem
    · subst hlf
      constructor
      · intro h
        contradiction
      · rintro ⟨hl, rest, heq⟩
        cases l with
        | nil => exact absurd (List.cons.inj heq).1 (by decide)
        | cons d l =>
          obtain ⟨rfl, -⟩ := List.cons.inj heq
          exact absurd List.mem_cons_self hl.lf_not_mem
    · rw [Option.map_eq_some_iff]
      constructor
      · rintro ⟨l, hl, rfl⟩
        obtain ⟨hline, rest, rfl⟩ := ih.mp hl
        exact ⟨List.forall_mem_cons.mpr ⟨⟨hlf, hcr⟩, hline⟩, rest, rfl⟩
      · rintro ⟨hl, rest, heq⟩
        cases l with
        | nil => exact absurd (List.cons.inj heq).1 hcr
        | cons d l =>
          obtain ⟨rfl, hs⟩ := List.cons.inj heq
          exact ⟨l, ih.mpr ⟨(List.forall_mem_cons.mp hl).2, rest, hs⟩, rfl⟩

/-- A line does not reach past a line feed. -/
theorem crLine_append_lf (s b : Bytes) : crLine (s ++ lf :: b) = crLine s := by
  induction s with
  | nil => rfl
  | cons c s ih =>
    rw [List.cons_append, crLine, crLine, ih]

/-- Of two ways to cut a line at `": "`, the later one cuts the value of the earlier. -/
theorem cut_later {n v n' v' : Bytes} (h : n ++ lit ": " ++ v = n' ++ lit ": " ++ v')
    (hlen : n.length < n'.length) : ∃ a, v = a ++ lit ": " ++ v' := by
  simp only [List.append_assoc] at h
  rcases List.append_eq_append_iff.mp h with ⟨d, rfl, hd⟩ | ⟨d, rfl, -⟩
  · cases d with
    | nil => simp at hlen
    | cons x d =>
      cases d with
      | nil => exact absurd (List.cons.inj (List.cons.inj hd).2).1 (by decide)
      | cons y a =>
        have hv := (List.cons.inj (List.cons.inj hd).2).2
        exact ⟨a, by rw [List.append_assoc]; exact hv⟩
  · rw [List.length_append] at hlen
    omega

theorem splitHeader_eq_none {l : Bytes} (h : splitHeader l = none) {n v : Bytes}
    (hl : l = n ++ lit ": " ++ v) : n = [] ∨ v = [] := by
  induction l generalizing n with
  | nil => exact absurd hl.symm (by simp [lit])
  | cons c s ih =>
    rw [splitHeader] at h
    cases hs : splitHeader s with
    | some p =>
      rw [hs] at h
      contradiction
    | none =>
      rw [hs] at h
      cases n with
      | nil => exact .inl rfl
      | cons d n =>
        obtain ⟨rfl, hrest⟩ := List.cons.inj hl
        rcases ih hs hrest with rfl | hv
        · right
          by_contra hv
          dsimp only at h
          rw [if_pos ⟨by rw [hrest]; rfl, by rw [hrest]; exact hv⟩] at h
          contradiction
        · exact .inr hv

/-- A line is cut into a name and a value that cannot be cut again. -/
theorem splitHeader_eq_some {l n v : Bytes} (h : splitHeader l = some (n, v)) :
    l = n ++ lit ": " ++ v ∧ n ≠ [] ∧ v ≠ [] ∧ NoSeparator v := by
  induction l generalizing n with
  | nil => contradiction
  | cons c s ih =>
    rw [splitHeader] at h
    cases hs : splitHeader s with
    | some p =>
      rw [hs] at h
      obtain ⟨rfl, rfl⟩ := Prod.mk.inj (Option.some.inj h)
      obtain ⟨hl, -, hv, hno⟩ := ih hs
      exact ⟨by rw [hl]; rfl, List.cons_ne_nil _ _, hv, hno⟩
    | none =>
      rw [hs] at h
      dsimp only at h
      split_ifs at h with hsep
      obtain ⟨rfl, rfl⟩ := Prod.mk.inj (Option.some.inj h)
      obtain ⟨rest, rfl⟩ := List.isPrefixOf_iff_prefix.mp hsep.1
      refine ⟨rfl, List.cons_ne_nil _ _, hsep.2, fun a b hab => ?_⟩
      refine (splitHeader_eq_none hs (n := lit ": " ++ a) ?_).resolve_left (by simp [lit])
      change rest = _ at hab
      rw [hab, List.append_assoc, List.append_assoc, List.append_assoc]

/-- The header that begins at a place is one that the text spells there. -/
theorem headerAt_eq_some {s n v : Bytes} (h : headerAt s = some (n, v)) :
    (∃ rest, s = n ++ lit ": " ++ v ++ cr :: rest) ∧ (n ≠ [] ∧ OneLine n) ∧
      (v ≠ [] ∧ OneLine v) ∧ NoSeparator v := by
  obtain ⟨l, hl, hsplit⟩ := Option.bind_eq_some_iff.mp h
  obtain ⟨hline, rest, rfl⟩ := crLine_eq_some_iff.mp hl
  obtain ⟨rfl, hn, hv, hno⟩ := splitHeader_eq_some hsplit
  obtain ⟨hline, hlinev⟩ := oneLine_append.mp hline
  exact ⟨⟨rest, rfl⟩, ⟨hn, (oneLine_append.mp hline).1⟩, ⟨hv, hlinev⟩, hno⟩

theorem headerAt_ne_none {n v rest : Bytes} (hn : n ≠ []) (hln : OneLine n) (hv : v ≠ [])
    (hlv : OneLine v) : headerAt (n ++ lit ": " ++ v ++ cr :: rest) ≠ none := by
  have hline : crLine (n ++ lit ": " ++ v ++ cr :: rest) = some (n ++ lit ": " ++ v) :=
    crLine_eq_some_iff.mpr
      ⟨(hln.append (by decide)).append hlv, rest, rfl⟩
  rw [headerAt, hline]
  intro h
  exact (splitHeader_eq_none h rfl).elim hn hv

/-- Headers do not reach past a line feed. -/
theorem headersIn_append_lf (s b : Bytes) :
    headersIn (s ++ lf :: b) = headersIn s ++ headersIn (lf :: b) := by
  induction s with
  | nil => rfl
  | cons c s ih =>
    rw [List.cons_append, headersIn, headersIn, ih, headerAt, headerAt, crLine_append_lf]
    split_ifs
    · rw [List.append_assoc]
    · rfl

/-- There are none without a line feed. -/
theorem headersIn_append {u : Bytes} (hu : lf ∉ u) (rest : Bytes) :
    headersIn (u ++ rest) = headersIn rest := by
  induction u with
  | nil => rfl
  | cons c u ih =>
    obtain ⟨hc, hu⟩ := not_or.mp (mt List.mem_cons.mpr hu)
    rw [List.cons_append, headersIn, if_neg (Ne.symm hc), ih hu]

/-! ## What the iterator finds -/

/-- The words of the header's regex. -/
theorem accepts_headerRegex {pre w post : Bytes} :
    headerRegex.Accepts pre w post ↔ ∃ n v, w = lf :: (n ++ lit ": " ++ v ++ [cr]) ∧
      (n ≠ [] ∧ OneLine n) ∧ (v ≠ [] ∧ OneLine v) := by
  constructor
  · rintro ⟨_, _, rfl, hlf, n, _, rfl, hn, _, _, rfl, hsep, v, _, rfl, hv, _, _, rfl, hcr, rfl⟩
    obtain rfl := accepts_literal.mp hlf
    obtain rfl := accepts_literal.mp hsep
    obtain rfl := accepts_literal.mp hcr
    exact ⟨n, v, by simp [lit], accepts_dot.mp hn, accepts_dot.mp hv⟩
  · rintro ⟨n, v, rfl, hn, hv⟩
    exact ⟨[lf], n ++ (lit ": " ++ (v ++ ([cr] ++ []))), by simp, accepts_literal.mpr rfl, n, _,
      rfl, accepts_dot.mpr hn, _, _, rfl, accepts_literal.mpr rfl, v, _, rfl, accepts_dot.mpr hv,
      _, _, rfl, accepts_literal.mpr rfl, rfl⟩

theorem nonEmpty_headerRegex : headerRegex.NonEmpty := by
  intro pre w post h
  obtain ⟨n, v, rfl, -, -⟩ := accepts_headerRegex.mp h
  exact List.cons_ne_nil _ _

/-- The matcher cuts a header at its last `": "`. -/
theorem first_headerRegex {seen n v rest : Bytes} (hn : n ≠ [] ∧ OneLine n)
    (hv : v ≠ [] ∧ OneLine v) (hno : NoSeparator v) :
    headerRegex.first ⟨seen, lf :: (n ++ lit ": " ++ v ++ cr :: rest), []⟩ =
      some ⟨seen ++ [lf] ++ n ++ lit ": " ++ v ++ [cr], rest, [(2, v), (1, n)]⟩ := by
  have hline : lf :: (n ++ lit ": " ++ v ++ cr :: rest) =
      lit "\n" ++ (n ++ (lit ": " ++ (v ++ (lit "\r" ++ rest)))) := by
    simp [lit]
  rw [hline, headerRegex, concat, first_literal rfl]
  refine first_group (w := n) (ordered_plus (deterministic_char _)) rfl rfl (accepts_dot.mpr hn)
    ?_ ?_
  · rw [concat, first_literal rfl]
    refine first_group_run (w := v) (ordered_plus (deterministic_char _)) rfl within_dot rfl
      (by simp [lit]) (accepts_dot.mpr hv) ?_
    rw [concat, first_literal rfl]
    rfl
  · intro u x hux hu hlen w y hxy hacc
    obtain ⟨_, _, rfl, hsep, v', _, rfl, hv', _, _, rfl, hcr, rfl⟩ := hacc
    obtain rfl := accepts_literal.mp hsep
    obtain rfl := accepts_literal.mp hcr
    obtain ⟨hne', hline'⟩ := accepts_dot.mp hv'
    obtain ⟨-, hlu⟩ := accepts_dot.mp hu
    have hsepline : OneLine (lit ": ") := by decide
    have hcut : (n ++ lit ": " ++ v) ++ cr :: rest = (u ++ lit ": " ++ v') ++ cr :: y := by
      rw [hxy] at hux
      simpa [lit] using hux
    obtain ⟨hline, -⟩ := append_cons_cancel ((hn.2.append hsepline).append hv.2).cr_not_mem
      ((hlu.append hsepline).append hline').cr_not_mem hcut
    obtain ⟨a, ha⟩ := cut_later hline hlen
    exact hne' (hno a v' ha)

/-- **The iterator of `parse_headers` visits the lines that look like headers.** -/
theorem map_matchesAt_headerRegex (seen s : Bytes) :
    (headerRegex.matchesAt seen s).map (fun m => (m.str 1, m.str 2)) = headersIn s := by
  refine map_matchesAt nonEmpty_headerRegex (fun seen s => ?_) seen s
  cases s with
  | nil => exact .done rfl rfl
  | cons c s =>
    -- where no header begins, a single character is passed over
    have skip (hno : ∀ w v, c :: s = w ++ v → ¬ headerRegex.Accepts seen w v)
        (hscan : headersIn (c :: s) = headersIn s) :
        ScanStep headerRegex (fun m => (m.str 1, m.str 2)) headersIn seen (c :: s) :=
      .skip (u := [c]) (List.cons_ne_nil _ _) (matchesAt_skip_one nonEmpty_headerRegex hno) hscan
    by_cases hlf : c = lf
    · subst hlf
      cases hat : headerAt s with
      | none =>
        refine skip (fun w v hwv hacc => ?_) (by rw [headersIn, if_pos rfl, hat]; rfl)
        obtain ⟨name, value, rfl, hname, hvalue⟩ := accepts_headerRegex.mp hacc
        obtain rfl : s = name ++ lit ": " ++ value ++ cr :: v := by
          simpa using (List.cons.inj hwv).2
        exact headerAt_ne_none hname.1 hname.2 hvalue.1 hvalue.2 hat
      | some p =>
        obtain ⟨name, value⟩ := p
        obtain ⟨⟨rest, rfl⟩, hname, hvalue, hno⟩ := headerAt_eq_some hat
        have hline : lf ∉ name ++ lit ": " ++ value ++ [cr] := by
          simp only [List.mem_append, List.mem_singleton, hname.2.lf_not_mem,
            hvalue.2.lf_not_mem, false_or, or_false]
          decide
        have hrest := headersIn_append hline rest
        rw [List.append_assoc, List.singleton_append] at hrest
        refine .take (first_headerRegex hname hvalue hno) ?_
        rw [headersIn, if_pos rfl, hat, hrest]
        rfl
    · refine skip (fun w v hwv hacc => ?_) (by rw [headersIn, if_neg hlf])
      obtain ⟨name, value, rfl, -⟩ := accepts_headerRegex.mp hacc
      exact hlf (List.cons.inj hwv).1

/-- **What `get_header` returns**: the value of the first line of the request
that looks like a header with this name. -/
theorem getHeader_eq {stale s : Bytes} (h : (Request.mk' stale s).valid = true) (name : Bytes) :
    (Request.mk' stale s).getHeader name = ((headersIn s).lookup name).getD "" := by
  rw [Request.getHeader, (mk'_of_valid h).1, parseHeaders, lookup_insertMatches, findAll_eq,
    map_matchesAt_headerRegex]

/-! ## The headers that were sent -/

/-- The request line ends at the first line feed. -/
theorem RequestLine.exists_line {s method target rest : Bytes}
    (h : RequestLine s method target rest) : ∃ line, lf ∉ line ∧ s = line ++ lf :: rest := by
  obtain ⟨hmethod, htarget, major, minor, hmajor, hminor, rfl⟩ := h
  refine ⟨method ++ lit " " ++ target ++ lit " HTTP/" ++ [major] ++ lit "." ++ [minor] ++ [cr],
    ?_, by simp⟩
  have hword : lf ∉ method := fun h => absurd (hmethod.2 _ h) (by decide)
  have hmajor' : lf ≠ major := by rintro rfl; exact absurd hmajor (by decide)
  have hminor' : lf ≠ minor := by rintro rfl; exact absurd hminor (by decide)
  have hlits : lf ∉ lit " " ∧ lf ∉ lit " HTTP/" ∧ lf ∉ lit "." ∧ lf ≠ cr := by decide
  simp only [List.mem_append, List.mem_singleton, hword, htarget.2.lf_not_mem, hmajor', hminor',
    hlits, or_self, not_false_eq_true]

/-- What is read from one header line. -/
theorem headersIn_headerLine {h : Bytes × Bytes} (hh : IsHeader h) (rest : Bytes) :
    headersIn (lf :: (headerLine h ++ rest)) =
      (splitHeader (h.1 ++ lit ": " ++ h.2)).toList ++ headersIn (lf :: rest) := by
  obtain ⟨-, hname, -, hvalue⟩ := hh
  have hline : OneLine (h.1 ++ lit ": " ++ h.2) :=
    (hname.append (by decide)).append hvalue
  have hcr : crLine (h.1 ++ lit ": " ++ h.2 ++ [cr]) = some (h.1 ++ lit ": " ++ h.2) :=
    crLine_eq_some_iff.mpr ⟨hline, [], rfl⟩
  have hlast : headersIn (h.1 ++ lit ": " ++ h.2 ++ [cr]) = [] := by
    rw [headersIn_append hline.lf_not_mem]
    rfl
  have hcut : lf :: (headerLine h ++ rest) =
      (lf :: (h.1 ++ lit ": " ++ h.2 ++ [cr])) ++ lf :: rest := by
    simp [headerLine]
  rw [hcut, headersIn_append_lf, headersIn, if_pos rfl, hlast, List.append_nil, headerAt, hcr,
    Option.bind_some]

/-- What is read from header lines. -/
def readHeaders (headers : List (Bytes × Bytes)) : List (Bytes × Bytes) :=
  headers.flatMap fun h => (splitHeader (h.1 ++ lit ": " ++ h.2)).toList

/-- What is read from the header lines of a request without a body. -/
theorem IsRequest.headersIn_eq {s : Bytes} {headers : List (Bytes × Bytes)}
    (h : IsRequest s headers []) : headersIn s = readHeaders headers := by
  have hlines : ∀ {headers : List (Bytes × Bytes)}, (∀ h ∈ headers, IsHeader h) →
      headersIn (lf :: (headers.flatMap headerLine ++ [cr, lf])) = readHeaders headers := by
    intro headers hheaders
    induction headers with
    | nil => rfl
    | cons h headers ih =>
      obtain ⟨hh, hheaders⟩ := List.forall_mem_cons.mp hheaders
      rw [readHeaders, List.flatMap_cons, List.flatMap_cons, List.append_assoc,
        headersIn_headerLine hh, ih hheaders, readHeaders]
  obtain ⟨method, target, hrequest⟩ := h.line
  obtain ⟨line, hline, rfl⟩ := hrequest.exists_line
  rw [headersIn_append hline, List.append_nil]
  exact hlines h.header

/-- A header whose value cannot be cut is read back, and only such a header is. -/
theorem splitHeader_header {h : Bytes × Bytes} (hh : IsHeader h) (hvalue : h.2 ≠ []) :
    ∃ p, splitHeader (h.1 ++ lit ": " ++ h.2) = some p ∧ p.2 ≠ [] ∧
      (NoSeparator h.2 ∧ p = h ∨ ¬ NoSeparator h.2 ∧ (':' : Byte) ∈ p.1) := by
  cases hsplit : splitHeader (h.1 ++ lit ": " ++ h.2) with
  | none => exact absurd (splitHeader_eq_none hsplit rfl) (not_or.mpr ⟨hh.1, hvalue⟩)
  | some p =>
    obtain ⟨n, v⟩ := p
    obtain ⟨heq, -, hv, hno⟩ := splitHeader_eq_some hsplit
    refine ⟨_, rfl, hv, ?_⟩
    rcases Nat.lt_trichotomy h.1.length n.length with hlt | hlen | hgt
    · -- the cut is in the value: the name that is read contains the header's colon
      obtain ⟨a, ha⟩ := cut_later heq hlt
      refine .inr ⟨fun hclean => hv (hclean a v ha), ?_⟩
      rw [ha] at heq
      have hn : h.1 ++ lit ": " ++ a = n := by
        have hcut : (h.1 ++ lit ": " ++ a) ++ (lit ": " ++ v) = n ++ (lit ": " ++ v) := by
          rw [← List.append_assoc n, ← heq]
          simp only [List.append_assoc]
        exact List.append_cancel_right hcut
      rw [← hn]
      simp [lit]
    · obtain ⟨hname, hval⟩ := List.append_inj (by simpa using heq) hlen
      have hval' : h.2 = v := List.append_cancel_left hval
      exact .inl ⟨hval' ▸ hno, by rw [← hname, ← hval']⟩
    · obtain ⟨a, ha⟩ := cut_later heq.symm hgt
      exact absurd (hno a h.2 ha) hvalue

section Sent

variable {headers : List (Bytes × Bytes)} (hheaders : ∀ h ∈ headers, IsHeader h ∧ h.2 ≠ [])

include hheaders

/-- Headers whose values cannot be cut are read as they are. -/
theorem readHeaders_clean (hclean : ∀ h ∈ headers, NoSeparator h.2) :
    readHeaders headers = headers := by
  have hone : ∀ h ∈ headers, (splitHeader (h.1 ++ lit ": " ++ h.2)).toList = [h] := by
    intro h hh
    obtain ⟨p, hsplit, -, hcase⟩ := splitHeader_header (hheaders h hh).1 (hheaders h hh).2
    obtain ⟨-, rfl⟩ := hcase.resolve_right fun hdirty => hdirty.1 (hclean h hh)
    rw [hsplit]
    rfl
  rw [readHeaders, List.flatMap_congr hone, List.flatMap_singleton']

/-- A header whose value is cut is read under a name that was not sent. -/
theorem lookup_readHeaders_cut {h : Bytes × Bytes} (hh : h ∈ headers) (hcut : ¬ NoSeparator h.2) :
    ∃ name value, (readHeaders headers).lookup name = some value ∧ value ≠ [] ∧
      headers.lookup name = none := by
  obtain ⟨p, hsplit, -, hcase⟩ := splitHeader_header (hheaders h hh).1 (hheaders h hh).2
  have hcolon := (hcase.resolve_left fun hclean => hcut hclean.1).2
  have hmem : p ∈ readHeaders headers :=
    List.mem_flatMap.mpr ⟨h, hh, by rw [hsplit]; exact Option.mem_toList.mpr rfl⟩
  cases hfound : (readHeaders headers).lookup p.1 with
  | none =>
    have := List.lookup_eq_none_iff.mp hfound p hmem
    simp at this
  | some value =>
    refine ⟨p.1, value, hfound, ?_, List.lookup_eq_none_iff.mpr fun h' hh' => bne_iff_ne.mpr ?_⟩
    · obtain ⟨l₁, l₂, hl, -⟩ := List.lookup_eq_some_iff.mp hfound
      have hvalue : (p.1, value) ∈ readHeaders headers := by
        rw [hl]
        exact List.mem_append_right _ List.mem_cons_self
      obtain ⟨h', hh', hsplit'⟩ := List.mem_flatMap.mp hvalue
      obtain ⟨p', hp', hne, -⟩ := splitHeader_header (hheaders h' hh').1 (hheaders h' hh').2
      rw [hp', Option.mem_toList, Option.some.injEq] at hsplit'
      rw [hsplit'] at hne
      exact hne
    · intro heq
      exact (hheaders h' hh').1.2.2.1 (heq ▸ hcolon)

end Sent

/-- **Exactly the headers whose values contain no `": "` before their end are
read back.** -/
theorem headers_roundTrip_iff (stale : Bytes) {s : Bytes} {headers : List (Bytes × Bytes)}
    (h : IsRequest s headers []) (hvalues : ∀ h ∈ headers, h.2 ≠ []) :
    (∀ name, (Request.mk' stale s).getHeader name = (headers.lookup name).getD "") ↔
      ∀ h ∈ headers, NoSeparator h.2 := by
  have hheaders : ∀ h ∈ headers, IsHeader h ∧ h.2 ≠ [] :=
    fun h₀ hh₀ => ⟨h.header h₀ hh₀, hvalues h₀ hh₀⟩
  simp only [getHeader_eq (h.valid stale), h.headersIn_eq]
  constructor
  · intro hget h₀ hh₀
    by_contra hcut
    obtain ⟨name, value, hread, hne, hsent⟩ := lookup_readHeaders_cut hheaders hh₀ hcut
    have hvalue := hget name
    rw [hread, hsent] at hvalue
    exact hne hvalue
  · intro hclean name
    rw [readHeaders_clean hheaders hclean]

/-- A value with a colon in it, but no `": "`. -/
theorem headers_roundTrip_host :
    (Request.mk' [] "GET / HTTP/1.1\r\nHost: a:80\r\n\r\n").getHeader "Host" = "a:80" := by
  have h : IsRequest "GET / HTTP/1.1\r\nHost: a:80\r\n\r\n" [("Host", "a:80")] [] :=
    ⟨⟨"GET", "/", .of_eq (by decide)⟩, by decide⟩
  refine (headers_roundTrip_iff "" h (by decide)).mpr ?_ "Host"
  intro h hh a b hab
  obtain rfl := List.mem_singleton.mp hh
  refine (splitHeader_eq_none (l := "a:80") (n := a) ?_ hab).elim (fun ha => ?_) id
  · decide
  · subst ha
    exact absurd hab (by simp [lit])

/-- A value that contains `": "` becomes part of the name. -/
theorem header_cut_in_value :
    IsRequest "GET / HTTP/1.1\r\nA: b: c\r\n\r\n" [("A", "b: c")] [] ∧
      (Request.mk' [] "GET / HTTP/1.1\r\nA: b: c\r\n\r\n").getHeader "A" ≠ "b: c" :=
  ⟨⟨⟨"GET", "/", .of_eq (by decide)⟩, by decide⟩, by decide⟩

/-! ## Headers out of the body -/

/-- Bytes that begin with a request line and end with a blank line. -/
structure RequestHead (head : Bytes) : Prop where
  line : ∃ method target rest, RequestLine head method target rest
  blank : ∃ before, head = before ++ lit "\r\n\r\n"

theorem RequestHead.valid {head : Bytes} (h : RequestHead head) (stale body : Bytes) :
    (Request.mk' stale (head ++ body)).valid = true := by
  obtain ⟨method, target, rest, hmethod, htarget, major, minor, hmajor, hminor, rfl⟩ := h.line
  refine (valid_iff_requestLine _ _).mpr ⟨method, target, rest ++ body, hmethod, htarget, major,
    minor, hmajor, hminor, ?_⟩
  simp only [List.append_assoc]

/-- The lines of the body are read after those of the head. -/
theorem RequestHead.headersIn_append {head : Bytes} (h : RequestHead head) (body : Bytes) :
    headersIn (head ++ body) = headersIn head ++ headersIn (lf :: body) := by
  obtain ⟨before, rfl⟩ := h.blank
  have hcut : ∀ body, before ++ lit "\r\n\r\n" ++ body =
      (before ++ [cr, lf, cr]) ++ lf :: body := by
    intro body
    simp [lit]
  have hhead := hcut []
  rw [List.append_nil] at hhead
  rw [hcut, hhead, headersIn_append_lf, headersIn_append_lf (before ++ [cr, lf, cr]) []]
  show _ = _ ++ [] ++ _
  rw [List.append_nil]

/-- No line that looks like a header has an empty value. -/
theorem ne_nil_of_lookup_headersIn {s name value : Bytes}
    (h : (headersIn s).lookup name = some value) : value ≠ [] := by
  obtain ⟨l₁, l₂, hl, -⟩ := List.lookup_eq_some_iff.mp h
  have hmem : (name, value) ∈ headersIn s := by
    rw [hl]
    exact List.mem_append_right _ List.mem_cons_self
  clear hl h
  induction s with
  | nil => contradiction
  | cons c s ih =>
    unfold headersIn at hmem
    split_ifs at hmem
    · rcases List.mem_append.mp hmem with hat | hmem
      · exact (headerAt_eq_some (Option.mem_toList.mp hat)).2.2.1.1
      · exact ih hmem
    · exact ih hmem

/-- **Exactly when two bodies leave the headers alike**: whatever name the head
does not give, the first line of each body that looks like a header with this
name has the same value, or there is none in either. -/
theorem headers_ignore_body_iff (stale₁ stale₂ : Bytes) {head : Bytes} (h : RequestHead head)
    (body₁ body₂ : Bytes) :
    (∀ name, (Request.mk' stale₁ (head ++ body₁)).getHeader name =
        (Request.mk' stale₂ (head ++ body₂)).getHeader name) ↔
      ∀ name, (headersIn head).lookup name = none →
        (headersIn (lf :: body₁)).lookup name = (headersIn (lf :: body₂)).lookup name := by
  simp only [getHeader_eq (h.valid _ _), h.headersIn_append, List.lookup_append]
  refine forall_congr' fun name => ?_
  cases (headersIn head).lookup name with
  | some value => simp
  | none =>
    simp only [Option.none_or, forall_const]
    cases h₁ : (headersIn (lf :: body₁)).lookup name with
    | none =>
      cases h₂ : (headersIn (lf :: body₂)).lookup name with
      | none => simp
      | some v₂ => simpa [lit] using (ne_nil_of_lookup_headersIn h₂).symm
    | some v₁ =>
      cases h₂ : (headersIn (lf :: body₂)).lookup name with
      | none => simpa [lit] using ne_nil_of_lookup_headersIn h₁
      | some v₂ => simp

theorem requestHead_get : RequestHead "GET / HTTP/1.1\r\nA: b\r\n\r\n" :=
  ⟨⟨"GET", "/", "A: b\r\n\r\n", .of_eq (by decide)⟩, "GET / HTTP/1.1\r\nA: b", by decide⟩

/-- A body may repeat a header of the head. -/
theorem headers_ignore_body_repeated :
    (Request.mk' [] (lit "GET / HTTP/1.1\r\nA: b\r\n\r\n" ++ lit "A: c\r\n")).getHeader "A" =
      (Request.mk' [] (lit "GET / HTTP/1.1\r\nA: b\r\n\r\n" ++ lit "d")).getHeader "A" := by
  refine (headers_ignore_body_iff "" "" requestHead_get "A: c\r\n" "d").mpr ?_ "A"
  intro name hname
  have hhead : headersIn "GET / HTTP/1.1\r\nA: b\r\n\r\n" = [(lit "A", lit "b")] := by decide
  have h₁ : headersIn (lf :: "A: c\r\n") = [(lit "A", lit "c")] := by decide
  have h₂ : headersIn (lf :: "d") = [] := by decide
  rw [hhead] at hname
  rw [h₁, h₂]
  have hne : name ≠ "A" := by
    rintro rfl
    exact absurd hname (by decide)
  rw [List.lookup_cons, beq_false_of_ne hne]

/-- A body makes the echo handler sleep. -/
theorem header_forged_by_body : RequestHead "GET / HTTP/1.1\r\nA: b\r\n\r\n" ∧
    (Request.mk' [] (lit "GET / HTTP/1.1\r\nA: b\r\n\r\n" ++ lit "Thread-Sleep: 9\r\n")).getHeader
      "Thread-Sleep" ≠
    (Request.mk' [] (lit "GET / HTTP/1.1\r\nA: b\r\n\r\n" ++ [])).getHeader "Thread-Sleep" :=
  ⟨requestHead_get, by decide⟩

end GittyUp
