import GittyUp.Web.Site

/-!
# A plain site

What the pages rely on can be had: a browser that sends requests without headers and
reads responses as they are written, and a server that counts its UUIDs.
-/

namespace GittyUp

open Lib

/-! ## A browser -/

/-- The code of a status line. -/
def statusCodeOf (status : Bytes) : Nat := digitsValue ((status.drop 9).takeWhile fun c => IsDigit c)

theorem statusCodeOf_statusText (code : Nat) : statusCodeOf (statusText code) = code := by
  obtain ⟨-, hdigits, hvalue⟩ := decimal_spec code
  have hdrop : (statusText code).drop 9 =
      decimal code ++ ((' ' : Byte) :: Response.statusWord code) := by
    rw [statusText, List.append_assoc, List.append_assoc]
    rfl
  have hblank : ¬ IsDigit ' ' := by decide
  rw [statusCodeOf, hdrop, List.takeWhile_append_of_pos fun c hc => decide_eq_true (hdigits c hc),
    List.takeWhile_cons_of_neg (by simpa using hblank), List.append_nil, hvalue]

/-- The values of a form, encoded. -/
def plainEncode (fields : List (Bytes × Bytes)) : Bytes :=
  queryText (fields.map fun f => (f.1, formEncode f.2))

theorem plainEncode_encodes : EncodesFields plainEncode := by
  intro fields _
  refine ⟨fields.map fun f => (f.1, formEncode f.2), rfl, ?_⟩
  rw [List.forall₂_map_right_iff, List.forall₂_same]
  exact fun f _ => ⟨rfl, (encodes_formEncode f.2).mono fun c hc => .inl hc⟩

/-- A browser that sends no headers. -/
def plainBrowser : Browser where
  requestText settings :=
    settings.type ++ lit " " ++ settings.url ++ lit " HTTP/1.1\r\n" ++
      ([cr, lf] ++ settings.data.getD [])
  callback text := do
    let read ← readResponse text
    let code := statusCodeOf read.statusLine
    if 200 ≤ code ∧ code < 300 ∧
        read.headers.lookup (lit "Content-Type") = some (lit "application/json") then
      Json.parse read.body
    else none
  redirect text := do
    let read ← readResponse text
    read.headers.lookup (lit "Location")
  serialize := plainEncode
  formQuery := plainEncode
  searchParam search name := some (search.drop (name.length + 2))

theorem plainBrowser_standard : plainBrowser.Standard where
  requestText settings h := by
    refine ⟨[], by simp, .of_eq ⟨?_, ⟨?_, fun c hc => (h.url_plain c hc).2⟩, rfl⟩⟩
    · have htypes : ∀ type ∈ [lit "GET", lit "POST", lit "PUT", lit "DELETE"],
          type ≠ [] ∧ ∀ c ∈ type, IsWordChar c := by decide
      exact htypes _ h.type
    · obtain ⟨segments, hne, -, hurl⟩ := h.url
      obtain ⟨segment, segments, rfl⟩ := List.exists_cons_of_ne_nil hne
      rw [hurl]
      simp [lit]
  success text code headers body data h hcode hjson hdata := by
    have hlookup : headers.lookup (lit "Content-Type") = some (lit "application/json") :=
      lookup_of_mem h.2 hjson
    simp [plainBrowser, h.1, statusCodeOf_statusText, hcode, hlookup, hdata]
  error text code headers body h hcode := by
    have hnot : ¬ code < 300 := by omega
    simp [plainBrowser, h.1, statusCodeOf_statusText, hnot]
  redirect text headers body href h hlocation := by
    have hlookup : headers.lookup (lit "Location") = some href := lookup_of_mem h.2 hlocation
    simp [plainBrowser, h.1, hlookup]
  serialize := plainEncode_encodes
  formQuery := plainEncode_encodes
  searchParam name value _ _ := by
    have hlength : name.length + 2 = (lit "?" ++ name ++ lit "=").length := by simp [lit]
    show some (List.drop (name.length + 2) _) = _
    rw [hlength, List.drop_left]

/-! ## UUIDs -/

/-- The last `width` decimal digits of a number. -/
def lastDigits : Nat → Nat → Bytes
  | 0, _ => []
  | width + 1, n => lastDigits width (n / 10) ++ [UInt8.ofNat (48 + n % 10)]

theorem lastDigits_spec (width n : Nat) :
    (lastDigits width n).length = width ∧ ∀ c ∈ lastDigits width n, IsDigit c := by
  induction width generalizing n with
  | zero => exact ⟨rfl, by simp [lastDigits]⟩
  | succ width ih =>
    obtain ⟨hlength, hdigits⟩ := ih (n / 10)
    have hlast : ∀ d < 10, IsDigit (UInt8.ofNat (48 + d)) := by decide
    rw [lastDigits]
    refine ⟨by simp [hlength], List.forall_mem_append.mpr ⟨hdigits, ?_⟩⟩
    exact List.forall_mem_singleton.mpr (hlast _ (Nat.mod_lt n (by decide)))

theorem lastDigits_injOn (width : Nat) : Set.InjOn (lastDigits width) {n | n < 10 ^ width} := by
  induction width with
  | zero =>
    intro n hn m hm _
    exact (Nat.lt_one_iff.mp hn).trans (Nat.lt_one_iff.mp hm).symm
  | succ width ih =>
    intro n hn m hm h
    rw [lastDigits, lastDigits] at h
    obtain ⟨hrest, hlast⟩ := List.append_inj' h rfl
    have hdiv : ∀ {k : Nat}, k < 10 ^ (width + 1) → k / 10 < 10 ^ width := fun hk =>
      Nat.div_lt_of_lt_mul (by rwa [pow_succ'] at hk)
    have hquotient : n / 10 = m / 10 := ih (hdiv hn) (hdiv hm) hrest
    have hdigit : ∀ d < 10, ∀ e < 10, UInt8.ofNat (48 + d) = UInt8.ofNat (48 + e) → d = e := by
      decide
    have hremainder : n % 10 = m % 10 :=
      hdigit _ (Nat.mod_lt n (by decide)) _ (Nat.mod_lt m (by decide)) (List.cons.inj hlast).1
    rw [← Nat.div_add_mod n 10, hquotient, hremainder, Nat.div_add_mod]

/-- The `n`-th UUID. -/
def countedUuid (n : Nat) : Bytes := lit "00000000-0000-4000-8000-" ++ lastDigits 12 n

theorem isUuid_countedUuid (n : Nat) : IsUuid (countedUuid n) := by
  obtain ⟨hlength, hdigits⟩ := lastDigits_spec 12 n
  refine ⟨by rw [countedUuid, List.length_append, hlength]; rfl, fun p hp => ?_⟩
  rw [countedUuid, List.zipIdx_append] at hp
  rcases List.mem_append.mp hp with hp | hp
  · have hhead : ∀ p ∈ (lit "00000000-0000-4000-8000-").zipIdx,
        if p.2 = 8 ∨ p.2 = 13 ∨ p.2 = 18 ∨ p.2 = 23 then p.1 = '-'
        else IsDigit p.1 ∨ ('a' ≤ p.1 ∧ p.1 ≤ 'f') := by decide
    exact hhead p hp
  · have hindex : 24 ≤ p.2 := (List.mk_mem_zipIdx_iff_le_and_getElem?_sub.mp hp).1
    rw [if_neg (by omega)]
    exact .inl (hdigits p.1 (List.fst_mem_of_mem_zipIdx hp))

theorem countedUuid_injOn : Set.InjOn countedUuid {n | n < 2 ^ 31 - 1} := by
  intro n hn m hm h
  have hbound : 2 ^ 31 - 1 < 10 ^ 12 := by decide
  exact lastDigits_injOn 12 (Nat.lt_trans hn hbound) (Nat.lt_trans hm hbound)
    (List.append_cancel_left h)

/-! ## The site -/

/-- The plain browser and a server with the meme handler alone. -/
def plainSite : Site (List Row) where
  sqlite := reference memeSchema
  env := storedSurroundings
  router := memeRouter
  handle _ _ := .error .invalidArgument
  uuid := countedUuid
  browser := plainBrowser

theorem plainSite_proper : plainSite.Proper fun char => char.length = 1 where
  standard := reference_standard memeSchema
  reliable := reference_reliable memeSchema
  searches := reference_searches memeSchema
  routes uri h := by
    have hlength : ¬ uri.length < (lit "/memes").length := Nat.not_lt.mpr h.length_le
    have hprefix : longestPrefixMatch [(lit "/memes", lit "meme")] uri = lit "/memes" := by
      rw [longestPrefixMatch, longestPrefixMatchLoop, if_neg hlength,
        if_pos ((prefixMatches_iff _ _).mpr h)]
      rfl
    have hname : selectHandlerName memeRouter [(lit "/memes", lit "meme")] uri = some "meme" := by
      rw [selectHandlerName, hprefix]
      rfl
    refine ⟨lit "", lit "", ?_⟩
    show (selectHandler memeRouter [(lit "/memes", lit "meme")] uri).bind _ = _
    rw [selectHandler, hname]
    rfl
  headers := rfl
  uuids := isUuid_countedUuid
  fresh := countedUuid_injOn
  browser := plainBrowser_standard

end GittyUp
