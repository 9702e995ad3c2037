import GittyUp.Http.Body

/-!
# The target of a request

The request line gives a method and a target, and `parse_query_string` cuts the
target at its last question mark into a path and a query. `target_cut_iff`: that
is the first one exactly when the query has none. From the query it reads
parameters whose values have a single character; `query_roundTrip_iff` says when
all of them are read back.
-/

namespace GittyUp

open Lib Regex

/-! ## The request line -/

/-- The words after the target in the request line's regex. -/
theorem accepts_version {pre w post : Bytes} :
    (concat [literal (lit " HTTP/"),
      Regex.group 3 (concat [Regex.digit, literal (lit "."), Regex.digit]),
      literal (lit "\r\n")]).Accepts pre w post ↔
    ∃ major minor, IsDigit major ∧ IsDigit minor ∧
      w = lit " HTTP/" ++ [major] ++ lit "." ++ [minor] ++ [cr, lf] := by
  constructor
  · rintro ⟨_, _, rfl, hhttp, _, _, rfl, ⟨_, _, rfl, hd₁, _, _, rfl, hdot, _, _, rfl, hd₂, rfl⟩,
      _, _, rfl, hcrlf, rfl⟩
    obtain ⟨major, hmajor, rfl⟩ := accepts_digit.mp hd₁
    obtain ⟨minor, hminor, rfl⟩ := accepts_digit.mp hd₂
    obtain rfl := accepts_literal.mp hhttp
    obtain rfl := accepts_literal.mp hdot
    obtain rfl := accepts_literal.mp hcrlf
    exact ⟨major, minor, hmajor, hminor, by simp [lit]⟩
  · rintro ⟨major, minor, hmajor, hminor, rfl⟩
    refine ⟨lit " HTTP/", ([major] ++ (lit "." ++ ([minor] ++ []))) ++ ([cr, lf] ++ []), by simp,
      accepts_literal.mpr rfl, _, _, rfl,
      ⟨_, _, rfl, accepts_digit.mpr ⟨major, hmajor, rfl⟩, _, _, rfl, accepts_literal.mpr rfl,
        _, _, rfl, accepts_digit.mpr ⟨minor, hminor, rfl⟩, rfl⟩,
      _, _, rfl, accepts_literal.mpr rfl, rfl⟩

/-- **The search for the request line finds its method and its target.** -/
theorem search_statusLineRegex {s method target rest : Bytes}
    (h : RequestLine s method target rest) :
    ∃ m, statusLineRegex.search s = some m ∧ m.str 1 = method ∧ m.str 2 = target := by
  obtain ⟨hmethod, htarget, major, minor, hmajor, hminor, hs⟩ := id h
  have hversion : s = method ++ (lit " " ++ (target ++ ((lit " HTTP/" ++ [major] ++ lit "." ++
      [minor] ++ [cr, lf]) ++ rest))) := by
    rw [hs]
    simp only [List.append_assoc]
  obtain ⟨k, u, hfirst, -, -, hlookup⟩ := exists_first_of_accepts
    (k := ⟨[] ++ method ++ lit " " ++ target,
      (lit " HTTP/" ++ [major] ++ lit "." ++ [minor] ++ [cr, lf]) ++ rest,
      [(2, target), (1, method)]⟩) rfl (accepts_version.mpr ⟨major, minor, hmajor, hminor, rfl⟩)
  have hk : statusLineRegex.first ⟨[], s, []⟩ = some k := by
    rw [statusLineRegex, concat, first_bol]
    refine first_group_run (w := method) (P := IsWordChar) (ordered_plus (deterministic_char _)) rfl
      within_plus_char hversion ?_
      (accepts_word.mpr hmethod) ?_
    · intro c hc
      obtain rfl := Option.some.inj hc
      decide
    · rw [concat, first_literal rfl]
      refine first_group (w := target) (ordered_plus (deterministic_char _)) rfl rfl
        (accepts_dot.mpr htarget) hfirst ?_
      -- a longer target would make a second request line
      intro u v huv hu hlen x y hxy hacc
      obtain ⟨major', minor', hmajor', hminor', rfl⟩ := accepts_version.mp hacc
      have hline : RequestLine s method u y := by
        refine ⟨hmethod, accepts_dot.mp hu, major', minor', hmajor', hminor', ?_⟩
        rw [hversion, huv, hxy]
        simp only [List.append_assoc]
      rw [(h.unique hline).2.1] at hlen
      exact absurd hlen (Nat.lt_irrefl _)
  refine ⟨matchTo [] k, searchFrom_of_first hk, ?_, ?_⟩
  · rw [str_matchTo, hlookup 1 (by decide)]
    rfl
  · rw [str_matchTo, hlookup 2 (by decide)]
    rfl

/-- What a valid request keeps of its request line. -/
theorem mk'_of_requestLine (stale : Bytes) {s method target rest : Bytes}
    (h : RequestLine s method target rest) :
    (Request.mk' stale s).method = method ∧
      (Request.mk' stale s).uri = (parseQueryString stale target).1 ∧
      (Request.mk' stale s).queryString = (parseQueryString stale target).2 := by
  obtain ⟨m, hm, rfl, rfl⟩ := search_statusLineRegex h
  unfold Request.mk'
  rw [hm]
  exact ⟨rfl, rfl, rfl⟩

/-! ## The path -/

theorem accepts_dots {greedy : Bool} {pre w post : Bytes} :
    (star greedy dot).Accepts pre w post ↔ OneLine w := by
  rw [dot, accepts_star_char]
  simp only [decide_eq_true_eq]
  rfl

/-- Without a question mark there is no query. -/
theorem search_queryStringRegex_none {target : Bytes} (h : ('?' : Byte) ∉ target) :
    queryStringRegex.search target = none := by
  refine search_eq_none_iff.mpr ?_
  rintro u w v rfl ⟨_, _, rfl, -, _, _, rfl, -, _, _, rfl, hmark, -⟩
  obtain rfl := accepts_literal.mp hmark
  exact h (by simp [lit])

/-- **The target is cut at its last question mark.** -/
theorem search_queryStringRegex {path query : Bytes} (hpath : path ≠ [] ∧ OneLine path)
    (hquery : OneLine query) (hno : ('?' : Byte) ∉ query) :
    ∃ m, queryStringRegex.search (path ++ lit "?" ++ query) = some m ∧ m.str 1 = path ∧
      m.str 2 = query := by
  have hfirst : queryStringRegex.first ⟨[], path ++ lit "?" ++ query, []⟩ =
      some ⟨[] ++ path ++ lit "?" ++ query, [], [(2, query), (1, path)]⟩ := by
    rw [queryStringRegex, concat, first_bol]
    refine first_group (w := path)
      (ordered_plus (deterministic_char _)) rfl (List.append_assoc _ _ _)
      (accepts_dot.mpr hpath) ?_ ?_
    · rw [concat, first_literal rfl]
      exact first_group_run (w := query) (P := fun c => c ≠ lf ∧ c ≠ cr)
        (ordered_star (deterministic_char _)) rfl (fun _ hc => of_decide_eq_true hc)
        (List.append_nil query).symm (by simp) (accepts_dots.mpr hquery) rfl
    · -- a longer path would end before a question mark of the query
      rintro u v huv hu hlen x y hxy ⟨_, _, rfl, hmark, -⟩
      obtain rfl := accepts_literal.mp hmark
      have hcut : path ++ ('?' : Byte) :: query = u ++ v := by simpa [lit] using huv
      rw [hxy] at hcut
      rcases List.append_eq_append_iff.mp hcut with ⟨d, rfl, hd⟩ | ⟨d, rfl, -⟩
      · cases d with
        | nil => exact absurd hlen (by simp [Before])
        | cons c d =>
          rw [(List.cons.inj hd).2] at hno
          exact hno (by simp [lit])
      · exact absurd hlen (by simp [Before])
  exact ⟨_, searchFrom_of_first hfirst, rfl, rfl⟩

theorem parseQueryString_uri_none (stale : Bytes) {target : Bytes} (h : ('?' : Byte) ∉ target) :
    (parseQueryString stale target).1 = target := by
  rw [parseQueryString, search_queryStringRegex_none h]

theorem parseQueryString_uri (stale : Bytes) {path query : Bytes}
    (hpath : path ≠ [] ∧ OneLine path) (hquery : OneLine query) (hno : ('?' : Byte) ∉ query) :
    (parseQueryString stale (path ++ lit "?" ++ query)).1 = path := by
  obtain ⟨m, hm, hone, -⟩ := search_queryStringRegex hpath hquery hno
  rw [parseQueryString, hm]
  exact hone

/-- The target `path`, or `path?query`. -/
def targetText (path : Bytes) : Option Bytes → Bytes
  | none => path
  | some query => path ++ lit "?" ++ query

/-- **Exactly when the method and the path are the ones sent**: unless the query
has a question mark of its own. -/
theorem target_cut_iff (stale : Bytes) {s method path rest : Bytes} {query : Option Bytes}
    (h : RequestLine s method (targetText path query) rest) (hpath : path ≠ [])
    (hno : ('?' : Byte) ∉ path) :
    ((Request.mk' stale s).method = method ∧ (Request.mk' stale s).uri = path) ↔
      ∀ q, query = some q → ('?' : Byte) ∉ q := by
  obtain ⟨hmethod, huri, -⟩ := mk'_of_requestLine stale h
  have hline := h.2.1.2
  rw [hmethod, huri, eq_self_iff_true, true_and]
  cases query with
  | none =>
    rw [targetText, parseQueryString_uri_none stale hno]
    simp
  | some q =>
    obtain ⟨hpq, hq⟩ := oneLine_append.mp hline
    have hpathline := (oneLine_append.mp hpq).1
    constructor
    · intro hcut q' hq' hmark
      obtain rfl := Option.some.inj hq'
      -- the path that is read goes up to the last question mark
      obtain ⟨q₁, q₂, rfl, hlast⟩ := exists_last_cut hmark
      obtain ⟨hq₁, hq₂⟩ := oneLine_append.mp hq
      have htext : targetText path (some (q₁ ++ ('?' : Byte) :: q₂)) =
          (path ++ lit "?" ++ q₁) ++ lit "?" ++ q₂ := by
        simp [targetText, lit]
      rw [htext, parseQueryString_uri stale ⟨by simp [lit], hpq.append hq₁⟩
        (List.forall_mem_cons.mp hq₂).2 hlast] at hcut
      exact absurd hcut (by simp [lit])
    · intro hclean
      exact parseQueryString_uri stale ⟨hpath, hpathline⟩ hq (hclean q rfl)

/-- A target with a query. -/
theorem target_cut_query :
    (Request.mk' [] "PUT /t?p=1 HTTP/1.1\r\n").method = "PUT" ∧
      (Request.mk' [] "PUT /t?p=1 HTTP/1.1\r\n").uri = "/t" := by
  have h : RequestLine "PUT /t?p=1 HTTP/1.1\r\n" "PUT" (targetText "/t" (some "p=1")) [] :=
    RequestLine.of_eq (by decide)
  exact (target_cut_iff "" h (by decide) (by decide)).mpr (by decide)

/-- A question mark in the query moves the cut. -/
theorem target_cut_late :
    RequestLine "GET /a?b?c HTTP/1.1\r\n" "GET" (targetText "/a" (some "b?c")) [] ∧
    (Request.mk' [] "GET /a?b?c HTTP/1.1\r\n").uri ≠ "/a" :=
  ⟨RequestLine.of_eq (by decide), by decide⟩

/-! ## The parameters -/

/-- A key or a value: not empty, and free of separators. -/
def IsQueryText (s : Bytes) : Prop :=
  s ≠ [] ∧ ∀ c ∈ s, c ≠ '&' ∧ c ≠ '=' ∧ c ≠ '?' ∧ c ≠ ' ' ∧ c ≠ cr ∧ c ≠ lf

instance : DecidablePred IsQueryText := fun _ => inferInstanceAs (Decidable (_ ∧ _))

/-- The text `key=value`. -/
def paramText (p : Bytes × Bytes) : Bytes := p.1 ++ lit "=" ++ p.2

/-- The text `k₁=v₁&k₂=v₂&...`. -/
def queryText (pairs : List (Bytes × Bytes)) : Bytes :=
  List.intercalate (lit "&") (pairs.map paramText)

/-- The request has this path and these parameters, and no others. -/
structure Request.HasQuery (req : Request) (path : Bytes) (pairs : List (Bytes × Bytes)) :
    Prop where
  uri : req.uri = path
  param : ∀ p ∈ pairs, req.getQueryStringParam p.1 = p.2
  other : ∀ name, name ∉ pairs.map Prod.fst → req.getQueryStringParam name = ""

theorem IsQueryText.oneLine {s : Bytes} (h : IsQueryText s) : OneLine s :=
  fun c hc => ⟨(h.2 c hc).2.2.2.2.2, (h.2 c hc).2.2.2.2.1⟩

theorem accepts_ampersands {greedy : Bool} {pre w post : Bytes} :
    (star greedy (literal (lit "&"))).Accepts pre w post ↔ ∀ c ∈ w, c = ('&' : Byte) := by
  constructor
  · intro h
    change Chain _ pre w post at h
    induction h with
    | nil => simp
    | cons _ hu _ ih =>
      rw [accepts_literal.mp hu]
      exact List.forall_mem_cons.mpr ⟨rfl, ih⟩
  · intro h
    show Chain _ pre w post
    induction w generalizing pre with
    | nil => exact .nil
    | cons c w ih =>
      obtain ⟨rfl, hw⟩ := List.forall_mem_cons.mp h
      exact .cons (u := lit "&") (by simp [lit]) (accepts_literal.mpr rfl) (ih hw)

theorem nonEmpty_queryParamRegex : queryParamRegex.NonEmpty := by
  rintro pre w post ⟨u, v, rfl, hu, -⟩
  have hne := (accepts_dot.mp hu).1
  simp [hne]

/-- The matcher takes a key up to the first `=`, one character of the value, and
the ampersands that follow. -/
theorem first_queryParamRegex {seen key amps rest : Bytes} {c : Byte}
    (hkey : key ≠ [] ∧ OneLine key) (hno : ('=' : Byte) ∉ key) (hc : OneLine [c])
    (hamps : ∀ d ∈ amps, d = ('&' : Byte)) (hrest : rest.head? ≠ some ('&' : Byte)) :
    queryParamRegex.first ⟨seen, key ++ (lit "=" ++ (c :: (amps ++ rest))), []⟩ =
      some ⟨seen ++ key ++ lit "=" ++ [c] ++ amps, rest, [(3, amps), (2, [c]), (1, key)]⟩ := by
  rw [queryParamRegex, concat]
  refine first_group (w := key) (ordered_plus (deterministic_char _)) rfl rfl
    (accepts_dot.mpr hkey) ?_ ?_
  · rw [concat, first_literal rfl]
    refine first_group (w := [c]) (ordered_plus (deterministic_char _)) rfl
      rfl (accepts_dot.mpr ⟨List.cons_ne_nil _ _, hc⟩) ?_ ?_
    · refine first_group_run (w := amps) (P := fun d => d = ('&' : Byte))
        (ordered_star (deterministic_literal _)) rfl ?_ rfl ?_ (accepts_ampersands.mpr hamps) rfl
      · exact ⟨fun _ hd => of_decide_eq_true hd, trivial⟩
      · rintro d hd rfl
        exact hrest hd
    · intro u v huv hu hlen
      have hpos := List.length_pos_iff.mpr (accepts_dot.mp hu).1
      have : u.length < 1 := hlen
      omega
  · -- a shorter key would end before an `=` of the key
    rintro u v huv hu hlen x y hxy ⟨_, _, rfl, heq, -⟩
    obtain rfl := accepts_literal.mp heq
    rw [hxy] at huv
    rcases List.append_eq_append_iff.mp huv with ⟨d, rfl, -⟩ | ⟨d, rfl, hd⟩
    · exact absurd hlen (by simp [Before])
    · cases d with
      | nil => exact absurd hlen (by simp [Before])
      | cons e d =>
        obtain rfl : ('=' : Byte) = e := (List.cons.inj hd).1
        exact hno (by simp)

/-- Parameters with values of one character are visited one by one. -/
theorem map_matchesAt_queryParamRegex {pairs : List (Bytes × Bytes)}
    (hpairs : ∀ p ∈ pairs, IsQueryText p.1 ∧ IsQueryText p.2 ∧ p.2.length = 1) {rest : Bytes}
    (hrest : rest.head? ≠ some ('&' : Byte)) (seen : Bytes) : ∃ seen',
    (queryParamRegex.matchesAt seen
        (pairs.flatMap (fun p => paramText p ++ lit "&") ++ rest)).map
          (fun m => (m.str 1, m.str 2)) =
      pairs ++ (queryParamRegex.matchesAt seen' rest).map fun m => (m.str 1, m.str 2) := by
  induction pairs generalizing seen with
  | nil => exact ⟨seen, rfl⟩
  | cons p pairs ih =>
    obtain ⟨⟨hkey, hvalue, hlen⟩, hmore⟩ := List.forall_mem_cons.mp hpairs
    obtain ⟨key, value⟩ := p
    obtain ⟨c, rfl⟩ := List.length_eq_one_iff.mp hlen
    have hno : ('=' : Byte) ∉ key := fun h => (hkey.2 _ h).2.1 rfl
    have hnext : (pairs.flatMap (fun p => paramText p ++ lit "&") ++ rest).head? ≠
        some ('&' : Byte) := by
      cases pairs with
      | nil => exact hrest
      | cons p' pairs =>
        obtain ⟨hne, hchars⟩ := (hmore p' List.mem_cons_self).1
        obtain ⟨d, k, hk⟩ := List.exists_cons_of_ne_nil hne
        rw [hk] at hchars
        simpa [paramText, hk] using (hchars d List.mem_cons_self).1
    have htext : (((key, [c]) :: pairs).flatMap (fun p => paramText p ++ lit "&") ++ rest) =
        key ++ (lit "=" ++ (c :: (lit "&" ++
          (pairs.flatMap (fun p => paramText p ++ lit "&") ++ rest)))) := by
      simp [paramText]
    obtain ⟨seen', hseen'⟩ := ih hmore (seen ++ key ++ lit "=" ++ [c] ++ lit "&")
    refine ⟨seen', ?_⟩
    rw [htext, matchesAt_cons nonEmpty_queryParamRegex (first_queryParamRegex
      ⟨hkey.1, hkey.oneLine⟩ hno hvalue.oneLine (by decide) hnext), List.map_cons, hseen',
      List.cons_append]
    rfl

theorem queryText_append (pairs : List (Bytes × Bytes)) (p : Bytes × Bytes)
    (more : List (Bytes × Bytes)) :
    queryText (pairs ++ p :: more) =
      pairs.flatMap (fun p => paramText p ++ lit "&") ++ queryText (p :: more) := by
  induction pairs with
  | nil => rfl
  | cons q pairs ih =>
    have hne : (pairs ++ p :: more).map paramText ≠ [] := by simp
    rw [List.cons_append, queryText, List.map_cons, List.intercalate_cons_of_ne_nil hne,
      List.flatMap_cons, List.append_assoc (paramText q ++ lit "&"), ← ih, queryText]

/-- A query begins with its first parameter. -/
theorem queryText_cons (p : Bytes × Bytes) (more : List (Bytes × Bytes)) :
    ∃ rest, queryText (p :: more) = p.1 ++ (lit "=" ++ (p.2 ++ rest)) ∧
      (more = [] → rest = []) := by
  cases more with
  | nil => exact ⟨[], by simp [queryText, paramText], fun _ => rfl⟩
  | cons q more =>
    refine ⟨lit "&" ++ queryText (q :: more), ?_, fun h => by contradiction⟩
    simp [queryText, paramText, List.intercalate_cons_cons]

/-- **What is read from a query** whose first parameters have values of one
character: these, and the first character of the next value. -/
theorem map_findAll_queryText {pairs : List (Bytes × Bytes)}
    (hpairs : ∀ p ∈ pairs, IsQueryText p.1 ∧ IsQueryText p.2 ∧ p.2.length = 1)
    {key : Bytes} {c : Byte} {v : Bytes} (hkey : IsQueryText key) (hvalue : IsQueryText (c :: v))
    (more : List (Bytes × Bytes)) (hend : v = [] → more = []) :
    ∃ found, (queryParamRegex.findAll (queryText (pairs ++ (key, c :: v) :: more))).map
        (fun m => (m.str 1, m.str 2)) = pairs ++ (key, [c]) :: found ∧ (v = [] → found = []) := by
  obtain ⟨rest, hrest, hlast⟩ := queryText_cons (key, c :: v) more
  have hhead : (queryText ((key, c :: v) :: more)).head? ≠ some ('&' : Byte) := by
    obtain ⟨d, k, rfl⟩ := List.exists_cons_of_ne_nil hkey.1
    rw [hrest]
    simpa using (hkey.2 d List.mem_cons_self).1
  have hnext : (v ++ rest).head? ≠ some ('&' : Byte) := by
    cases v with
    | nil => simp [hlast (hend rfl)]
    | cons d v => simpa using (hvalue.2 d (by simp)).1
  have hno : ('=' : Byte) ∉ key := fun h => (hkey.2 _ h).2.1 rfl
  have hc : OneLine [c] := fun d hd => hvalue.oneLine d (by simp_all)
  obtain ⟨seen, hseen⟩ := map_matchesAt_queryParamRegex hpairs hhead []
  refine ⟨(queryParamRegex.matchesAt (seen ++ key ++ lit "=" ++ [c] ++ []) (v ++ rest)).map
    fun m => (m.str 1, m.str 2), ?_, ?_⟩
  · have hfirst : queryParamRegex.first
          ⟨seen, key ++ (lit "=" ++ (c :: ([] ++ (v ++ rest)))), []⟩ =
        some ⟨seen ++ key ++ lit "=" ++ [c] ++ [], v ++ rest, [(3, []), (2, [c]), (1, key)]⟩ :=
      first_queryParamRegex ⟨hkey.1, hkey.oneLine⟩ hno hc (by simp) hnext
    rw [findAll_eq, queryText_append, hseen, hrest]
    show _ ++ (queryParamRegex.matchesAt seen
      (key ++ (lit "=" ++ (c :: ([] ++ (v ++ rest)))))).map _ = _
    rw [matchesAt_cons nonEmpty_queryParamRegex hfirst, List.map_cons]
    rfl
  · rintro rfl
    rw [hlast (hend rfl)]
    rfl

/-- A query whose values have one character each is read as it is. -/
theorem findAll_queryText {pairs : List (Bytes × Bytes)} (hne : pairs ≠ [])
    (hpairs : ∀ p ∈ pairs, IsQueryText p.1 ∧ IsQueryText p.2 ∧ p.2.length = 1) :
    (queryParamRegex.findAll (queryText pairs)).map (fun m => (m.str 1, m.str 2)) = pairs := by
  obtain ⟨before, ⟨key, value⟩, rfl⟩ := (List.eq_nil_or_concat' pairs).resolve_left hne
  obtain ⟨hbefore, hlast⟩ := List.forall_mem_append.mp hpairs
  obtain ⟨hkey, hvalue, hlen⟩ := hlast _ List.mem_cons_self
  obtain ⟨c, rfl⟩ := List.length_eq_one_iff.mp hlen
  obtain ⟨found, hfound, hnil⟩ := map_findAll_queryText hbefore hkey hvalue [] (fun _ => rfl)
  rw [hfound, hnil rfl]

/-- Of the first value of more than one character the first one is read. -/
theorem lookup_queryText_cut {good more : List (Bytes × Bytes)} {key : Bytes} {c : Byte} {v : Bytes}
    (hpairs : ∀ p ∈ good ++ (key, c :: v) :: more, IsQueryText p.1 ∧ IsQueryText p.2)
    (hkeys : ((good ++ (key, c :: v) :: more).map Prod.fst).Nodup)
    (hgood : ∀ p ∈ good, p.2.length = 1) (hv : v ≠ []) :
    ((queryParamRegex.findAll (queryText (good ++ (key, c :: v) :: more))).map
      fun m => (m.str 1, m.str 2)).lookup key = some [c] := by
  obtain ⟨hgoodText, hmore⟩ := List.forall_mem_append.mp hpairs
  obtain ⟨hkey, hvalue⟩ := hmore _ List.mem_cons_self
  obtain ⟨found, hfound, -⟩ := map_findAll_queryText
    (fun q hq => ⟨(hgoodText q hq).1, (hgoodText q hq).2, hgood q hq⟩) hkey hvalue more
    (fun h => absurd h hv)
  rw [List.map_append, List.nodup_append] at hkeys
  have hno : key ∉ good.map Prod.fst := fun hk => hkeys.2.2 key hk key (by simp) rfl
  rw [hfound, List.lookup_append, lookup_eq_none_of_not_mem hno, Option.none_or,
    List.lookup_cons_self]

/-- The parameters of a request whose query is not overwritten. -/
theorem getQueryStringParam_eq (stale : Bytes) {s method path rest query : Bytes}
    (h : RequestLine s method (path ++ lit "?" ++ query) rest) (hpath : path ≠ [])
    (hno : ('?' : Byte) ∉ query) (name : Bytes) :
    (Request.mk' stale s).getQueryStringParam name =
      (((queryParamRegex.findAll (if path.length < 16 then query else stale)).map
        fun m => (m.str 1, m.str 2)).lookup name).getD [] := by
  obtain ⟨hpq, hq⟩ := oneLine_append.mp h.2.1.2
  obtain ⟨m, hm, hone, htwo⟩ :=
    search_queryStringRegex ⟨hpath, (oneLine_append.mp hpq).1⟩ hq hno
  rw [Request.getQueryStringParam, (mk'_of_requestLine stale h).2.2, parseQueryString, hm]
  dsimp only
  rw [hone, htwo, lookup_insertMatches]
  rfl

theorem not_mark_queryText {pairs : List (Bytes × Bytes)}
    (hpairs : ∀ p ∈ pairs, IsQueryText p.1 ∧ IsQueryText p.2) : ('?' : Byte) ∉ queryText pairs := by
  induction pairs with
  | nil => exact List.not_mem_nil
  | cons p pairs ih =>
    obtain ⟨⟨hkey, hvalue⟩, hpairs⟩ := List.forall_mem_cons.mp hpairs
    have hp : ('?' : Byte) ∉ paramText p := by
      have hk : ('?' : Byte) ∉ p.1 := fun h => (hkey.2 _ h).2.2.1 rfl
      have hv : ('?' : Byte) ∉ p.2 := fun h => (hvalue.2 _ h).2.2.1 rfl
      simp only [paramText, List.mem_append, hk, hv, false_or, or_false]
      decide
    cases pairs with
    | nil => simpa [queryText] using hp
    | cons q pairs =>
      have hq := ih hpairs
      rw [queryText, List.map_cons] at hq ⊢
      rw [List.map_cons, List.intercalate_cons_cons]
      simp only [List.mem_append, hp, hq, false_or, or_false]
      decide

/-- No parameter without an `=`. -/
theorem findAll_queryParamRegex_nil {s : Bytes} (h : ('=' : Byte) ∉ s) :
    queryParamRegex.findAll s = [] := by
  rw [findAll_eq]
  refine matchesAt_eq_nil ?_
  rintro u _ v rfl ⟨key, _, rfl, -, _, _, rfl, heq, -⟩
  obtain rfl := accepts_literal.mp heq
  exact h (by simp [lit])

/-- **Exactly the queries behind a path of at most 15 bytes, with values of one
byte, are read back**, whatever the freed buffer of a longer path holds where the
query was. -/
theorem query_roundTrip_iff {s method path rest : Bytes} {pairs : List (Bytes × Bytes)}
    (h : RequestLine s method (path ++ lit "?" ++ queryText pairs) rest) (hpath : path ≠ [])
    (hne : pairs ≠ []) (hpairs : ∀ p ∈ pairs, IsQueryText p.1 ∧ IsQueryText p.2)
    (hkeys : (pairs.map Prod.fst).Nodup) :
    (∀ stale, stale.length = (queryText pairs).length → (Request.mk' stale s).HasQuery path pairs) ↔
      path.length ≤ 15 ∧ ∀ p ∈ pairs, p.2.length = 1 := by
  have hmark := not_mark_queryText hpairs
  have hget := fun stale => getQueryStringParam_eq stale h hpath hmark
  constructor
  · intro hquery
    -- the freed buffer may read as bytes that spell no parameter
    have hnul : ('=' : Byte) ∉ List.replicate (queryText pairs).length (0 : Byte) :=
      fun h => absurd (List.eq_of_mem_replicate h) (by decide)
    have hnone := findAll_queryParamRegex_nil hnul
    replace hquery := hquery (List.replicate _ 0) List.length_replicate
    have hshort : path.length ≤ 15 := by
      by_contra hlong
      obtain ⟨p, more, rfl⟩ := List.exists_cons_of_ne_nil hne
      have hp := hquery.param p List.mem_cons_self
      rw [hget, if_neg (by omega), hnone] at hp
      exact (hpairs p List.mem_cons_self).2.1 hp.symm
    refine ⟨hshort, ?_⟩
    rcases exists_cut (fun p : Bytes × Bytes => p.2.length ≠ 1) pairs with hall |
      ⟨good, p, more, rfl, hgood, hp⟩
    · simpa using hall
    · obtain ⟨key, value⟩ := p
      have hmem : (key, value) ∈ good ++ (key, value) :: more := by simp
      obtain ⟨c, v, rfl⟩ := List.exists_cons_of_ne_nil (hpairs _ hmem).2.1
      have hv : v ≠ [] := by
        rintro rfl
        exact hp rfl
      have hcut := hquery.param _ hmem
      rw [hget, if_pos (by omega), lookup_queryText_cut hpairs hkeys (by simpa using hgood) hv,
        Option.getD_some] at hcut
      exact absurd (List.cons.inj hcut).2.symm hv
  · rintro ⟨hshort, hone⟩ stale -
    have hread : ∀ name, (Request.mk' stale s).getQueryStringParam name =
        (pairs.lookup name).getD [] := by
      intro name
      rw [hget, if_pos (by omega), findAll_queryText hne fun p hp =>
        ⟨(hpairs p hp).1, (hpairs p hp).2, hone p hp⟩]
    obtain ⟨hpq, hq⟩ := oneLine_append.mp h.2.1.2
    refine ⟨?_, fun p hp => ?_, fun name hname => ?_⟩
    · rw [(mk'_of_requestLine stale h).2.1,
        parseQueryString_uri stale ⟨hpath, (oneLine_append.mp hpq).1⟩ hq hmark]
    · rw [hread, lookup_of_mem hkeys hp, Option.getD_some]
    · rw [hread, lookup_eq_none_of_not_mem hname]
      rfl

/-- Two parameters with values of one byte. -/
theorem query_roundTrip_two :
    (Request.mk' (lit "1234567") "GET /a?b=c&d=e HTTP/1.1\r\n").HasQuery "/a"
      [("b", "c"), ("d", "e")] := by
  have h : RequestLine "GET /a?b=c&d=e HTTP/1.1\r\n" "GET"
      (lit "/a" ++ lit "?" ++ queryText [("b", "c"), ("d", "e")]) [] :=
    RequestLine.of_eq (by decide)
  exact (query_roundTrip_iff h (by decide) (by decide)
    (by decide) (by decide)).mpr (by decide) "1234567" (by decide)

/-- Of a value of two bytes the first is read. -/
theorem query_value_cut : RequestLine "GET /a?b=cd HTTP/1.1\r\n" "GET"
      (lit "/a" ++ lit "?" ++ queryText [("b", "cd")]) [] ∧
    (Request.mk' [] "GET /a?b=cd HTTP/1.1\r\n").getQueryStringParam "b" ≠ "cd" :=
  ⟨RequestLine.of_eq (by decide), by decide⟩

end GittyUp
