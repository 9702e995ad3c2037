import GittyUp.Http.Body
import GittyUp.Http.Reading
import GittyUp.Meme.Rows
import GittyUp.Web.Pages

/-!
# The requests of the pages

What a browser does for the pages is documented (`Browser.Standard`): it sends a
request with the method, the URL and the data that it is given, encodes the fields
of a form, and tells a script whether its request has succeeded. The requests of the
pages are commands of the meme store, and a form is stored if its text spells all
fields (`Accepts`).
-/

namespace GittyUp

open Lib Regex

/-! ## What the browser does -/

/-- A byte that is sent as it is. -/
def IsUnescaped (c : Byte) : Prop :=
  IsUnreserved c ∨ c = '*' ∨ c = 39 ∨ c = '(' ∨ c = ')'

instance : DecidablePred IsUnescaped :=
  fun _ => inferInstanceAs (Decidable (_ ∨ _ ∨ _ ∨ _ ∨ _))

/-- A segment that a browser takes for a step in the path. -/
def IsDotSegment (segment : Bytes) : Prop :=
  uriDecode segment = .ok "." ∨ uriDecode segment = .ok ".."

/-- A segment of a path that is sent as it is. -/
structure IsSegment (segment : Bytes) : Prop where
  bytes : ∀ c ∈ segment, IsUnescaped c ∨ c = '%' ∨ c = '+'
  noDots : ¬ IsDotSegment segment

/-- A request that is sent as it is. -/
structure AjaxSettings.Proper (settings : AjaxSettings) : Prop where
  type : settings.type ∈ [lit "GET", lit "POST", lit "PUT", lit "DELETE"]
  url : ∃ segments : List Bytes, segments ≠ [] ∧ (∀ segment ∈ segments, IsSegment segment) ∧
    settings.url = segments.flatMap (lit "/" ++ ·)
  data : ∀ data, settings.data = some data →
    ∀ c ∈ data, IsUnescaped c ∨ c = '%' ∨ c = '+' ∨ c = '&' ∨ c = '='

/-- The fields are sent in their order, each value encoded. -/
def EncodesFields (encode : List (Bytes × Bytes) → Bytes) : Prop :=
  ∀ fields, (∀ f ∈ fields, f.1 ≠ [] ∧ ∀ c ∈ f.1, IsWordChar c) →
    ∃ sent, encode fields = queryText sent ∧ List.Forall₂ (SentAs IsUnescaped) fields sent

/-- The text is that of a response with this code, these headers and this body. -/
def IsResponse (text : Bytes) (code : Nat) (headers : List (Bytes × Bytes)) (body : Bytes) : Prop :=
  readResponse text = some ⟨statusText code, headers, body⟩ ∧ (headers.map Prod.fst).Nodup

/-- The text is that of the response, with its headers in some order. -/
def IsTextOf (response : Response) (text : Bytes) : Prop :=
  ∃ headers, IsResponse text response.statusCode headers response.responseBody ∧
    ∀ name value, (name, value) ∈ headers ↔ response.responseHeaders.lookup name = some value

/-- What the pages rely on. -/
structure Browser.Standard (b : Browser) : Prop where
  requestText : ∀ settings, settings.Proper → ∃ headers : List (Bytes × Bytes),
    (∀ header ∈ headers, IsHeader header) ∧
      RequestLine (b.requestText settings) settings.type settings.url
        (headers.flatMap headerLine ++ [cr, lf] ++ settings.data.getD [])
  success : ∀ text code headers body data, IsResponse text code headers body →
    200 ≤ code ∧ code < 300 → (lit "Content-Type", lit "application/json") ∈ headers →
    Json.parse body = some data → b.callback text = some data
  error : ∀ text code headers body, IsResponse text code headers body → 400 ≤ code →
    b.callback text = none
  redirect : ∀ text headers body href, IsResponse text 303 headers body →
    (lit "Location", href) ∈ headers → b.redirect text = some href
  serialize : EncodesFields b.serialize
  formQuery : EncodesFields b.formQuery
  searchParam : ∀ name value, (∀ c ∈ name, IsWordChar c) → (∀ c ∈ value, IsUnescaped c) →
    b.searchParam (lit "?" ++ name ++ lit "=" ++ value) name = some value

/-! ## What is sent -/

theorem IsUnescaped.plain {c : Byte} (h : IsUnescaped c) :
    c ≠ '%' ∧ c ≠ '+' ∧ c ≠ '/' ∧ c ≠ '?' ∧ c ≠ '&' ∧ c ≠ '=' ∧ c ≠ lf ∧ c ≠ cr := by
  unfold IsUnescaped IsUnreserved IsDigit at h
  unfold lf cr
  simp only [UInt8.le_iff_toNat_le, ne_eq, ← UInt8.toNat_inj] at *
  simp at *
  omega

theorem IsHexDigit.isUnescaped {c : Byte} (h : IsHexDigit c) : IsUnescaped c := by
  unfold IsHexDigit at h
  refine .inl ?_
  unfold IsUnreserved
  rcases h with h | h | h
  · exact .inl h
  · exact .inr (.inl ⟨h.1, UInt8.le_trans h.2 (show ('f' : Byte) ≤ 'z' by decide)⟩)
  · exact .inr (.inr (.inl ⟨h.1, UInt8.le_trans h.2 (show ('F' : Byte) ≤ 'Z' by decide)⟩))

theorem IsWordChar.isUnescaped {c : Byte} (h : IsWordChar c) : IsUnescaped c := by
  unfold IsWordChar at h
  unfold IsUnescaped IsUnreserved
  tauto

/-- The bytes of an encoded value. -/
theorem Encodes.bytes {s w : Bytes} (h : Encodes IsUnescaped s w) :
    ∀ c ∈ w, IsUnescaped c ∨ c = '%' ∨ c = '+' := by
  induction h with
  | nil => simp
  | @cons c s u w hc _ ih =>
    refine List.forall_mem_append.mpr ⟨?_, ih⟩
    cases hc with
    | plain hc => simpa using .inl hc
    | plus => simp
    | percent hh hl _ =>
      simp only [List.forall_mem_cons]
      exact ⟨by simp, .inl hh.isUnescaped, .inl hl.isUnescaped, by simp⟩

/-- Only the empty value is sent as nothing. -/
theorem Encodes.eq_nil_iff {s w : Bytes} (h : Encodes IsUnescaped s w) : w = [] ↔ s = [] := by
  cases h with
  | nil => exact Iff.rfl
  | cons hc => cases hc <;> simp

theorem Encodes.decode {s w : Bytes} (h : Encodes IsUnescaped s w) : uriDecode w = .ok s :=
  uriDecode_encodes (fun _ hc => ⟨hc.plain.1, hc.plain.2.1⟩) h

/-- A value that is no step in the path is a segment when it is encoded. -/
theorem Encodes.isSegment {s w : Bytes} (h : Encodes IsUnescaped s w)
    (hs : s ≠ lit "." ∧ s ≠ lit "..") : IsSegment w := by
  refine ⟨h.bytes, ?_⟩
  unfold IsDotSegment
  rw [h.decode]
  rintro (hdot | hdot)
  · exact hs.1 (Except.ok.inj hdot)
  · exact hs.2 (Except.ok.inj hdot)

/-- The bytes of the fields of a form. -/
theorem bytes_queryText {fields sent : List (Bytes × Bytes)}
    (hkeys : ∀ f ∈ fields, ∀ c ∈ f.1, IsWordChar c)
    (h : List.Forall₂ (SentAs IsUnescaped) fields sent) :
    ∀ c ∈ queryText sent, IsUnescaped c ∨ c = '%' ∨ c = '+' ∨ c = '&' ∨ c = '=' := by
  have hparam : ∀ {f f' : Bytes × Bytes}, (∀ c ∈ f.1, IsWordChar c) → SentAs IsUnescaped f f' →
      ∀ c ∈ paramText f', IsUnescaped c ∨ c = '%' ∨ c = '+' ∨ c = '&' ∨ c = '=' := by
    intro f f' hk hf
    unfold paramText
    rw [hf.key]
    simp only [List.forall_mem_append]
    refine ⟨⟨fun c hc => .inl (IsWordChar.isUnescaped (hk c hc)), by decide⟩, fun c hc => ?_⟩
    rcases hf.value.bytes c hc with h | h | h
    · exact .inl h
    · exact .inr (.inl h)
    · exact .inr (.inr (.inl h))
  induction h with
  | nil => exact fun c hc => absurd hc List.not_mem_nil
  | @cons f f' fields sent hf hfields ih =>
    obtain ⟨hk, hrest⟩ := List.forall_mem_cons.mp hkeys
    have hih := ih hrest
    unfold queryText at hih ⊢
    cases hfields with
    | nil => simpa using hparam hk hf
    | cons hg hmore =>
      simp only [List.map_cons, List.intercalate_cons_cons] at hih ⊢
      simp only [List.forall_mem_append] at hih ⊢
      exact ⟨⟨hparam hk hf, by decide⟩, hih⟩

/-! ## What the handler makes of the URLs -/

/-- `check_uri` cuts off `/memes/`. -/
theorem checkUri_memes {s : Bytes} (h : OneLine s) : checkUri (lit "/memes/" ++ s) = s := by
  have hfirst : checkUriRegex.first ⟨[], lit "/memes/" ++ s, []⟩ =
      some ⟨[] ++ lit "/memes/" ++ s, [], [(1, s)]⟩ := by
    rw [checkUriRegex, concat, first_literal rfl]
    exact first_group_run (w := s) (ordered_star (deterministic_char _)) rfl
      (fun _ hc => of_decide_eq_true hc) (List.append_nil s).symm (by simp)
      (accepts_dots.mpr h) rfl
  rw [checkUri, search, searchFrom_of_first hfirst]
  rfl

/-- The bytes of a UUID. -/
theorem IsUuid.bytes {id : Bytes} (h : IsUuid id) : ∀ c ∈ id, IsUnescaped c := by
  intro c hc
  rcases chars_of_checkId h.checkId c hc with hhex | rfl
  · exact hhex.isUnescaped
  · decide

theorem IsUuid.oneLine {id : Bytes} (h : IsUuid id) : OneLine id := fun c hc =>
  ⟨(h.bytes c hc).plain.2.2.2.2.2.2.1, (h.bytes c hc).plain.2.2.2.2.2.2.2⟩

theorem IsUuid.isSegment {id : Bytes} (h : IsUuid id) : IsSegment id := by
  refine Encodes.isSegment (.plain h.bytes) ⟨?_, ?_⟩ <;> rintro rfl <;>
    exact absurd h.1 (by decide)

/-- A GET of a UUID asks for the meme of this id. -/
theorem getTarget_uuid {id : Bytes} (h : IsUuid id) : getTarget id = .byId id := by
  have hlength := h.1
  have hchars := chars_of_checkId h.checkId
  have hword : ∀ {w : Bytes}, w.length ≠ 36 → id ≠ w := by
    rintro w hw rfl
    exact hw hlength
  -- none of the keywords consists of hexadecimal digits
  have hprefix : ∀ {w : Bytes}, (∃ c ∈ w, ¬ (IsHexDigit c ∨ c = '-')) → id.take w.length ≠ w := by
    rintro w ⟨c, hc, hnot⟩ htake
    exact hnot (hchars c (List.mem_of_mem_take (htake ▸ hc)))
  unfold getTarget
  rw [if_neg (not_or.mpr ⟨hword (by decide), hword (by decide)⟩),
    if_neg (not_or.mpr ⟨hword (by decide), hword (by decide)⟩),
    if_neg fun hmanage => hprefix (w := lit "manage/") (by decide) hmanage.2,
    if_neg fun hview => hprefix (w := lit "view/") (by decide) hview.2,
    if_neg (not_or.mpr ⟨hword (by decide), hword (by decide)⟩),
    if_neg fun hsearch => hprefix (w := lit "search/") (by decide) hsearch.2]

theorem getTarget_manage {id : Bytes} (h : id ≠ []) :
    getTarget (lit "manage/" ++ id) = .redirect (lit "manage/" ++ id) := by
  have hlength : 7 < (lit "manage/" ++ id).length := by
    rw [List.length_append]
    exact Nat.lt_add_of_pos_right (List.length_pos_of_ne_nil h)
  unfold getTarget
  rw [if_neg, if_neg, if_pos ⟨hlength, List.take_left' rfl⟩]
  all_goals
    rintro (heq | heq) <;> simp [lit] at heq

theorem getTarget_view {id : Bytes} (h : id ≠ []) :
    getTarget (lit "view/" ++ id) = .redirect id := by
  have hlength : 5 < (lit "view/" ++ id).length := by
    rw [List.length_append]
    exact Nat.lt_add_of_pos_right (List.length_pos_of_ne_nil h)
  unfold getTarget
  rw [if_neg, if_neg, if_neg, if_pos ⟨hlength, List.take_left' rfl⟩]
  · rfl
  all_goals simp [lit, h]

theorem getTarget_search {query : Bytes} (h : query ≠ []) :
    getTarget (lit "search/" ++ query) = .search query := by
  have hlength : 7 < (lit "search/" ++ query).length := by
    rw [List.length_append]
    exact Nat.lt_add_of_pos_right (List.length_pos_of_ne_nil h)
  unfold getTarget
  rw [if_neg, if_neg, if_neg, if_neg, if_neg,
    if_pos ⟨hlength, List.take_left' rfl⟩]
  · rfl
  all_goals simp [lit]

/-! ## Forms -/

/-- A form is stored with these texts: those that its fields spell. -/
def Accepts (form texts : MemeTexts) : Prop :=
  Complete (fieldsIn (queryText form.fields)) ∧
    texts = readTexts (fieldsIn (queryText form.fields))

section Body

variable {encode : List (Bytes × Bytes) → Bytes} (h : EncodesFields encode) (form : MemeTexts)

include h

theorem uriDecode_encode : uriDecode (encode form.fields) = .ok (queryText form.fields) := by
  have hkeys := (keys_of_perm_memeFields (.refl form.fields)).1
  obtain ⟨sent, hsent, hfields⟩ := h form.fields hkeys
  rw [hsent]
  exact uriDecode_form (.refl _) (fun _ hc => ⟨hc.plain.1, hc.plain.2.1⟩) hfields

theorem bytes_encode :
    ∀ c ∈ encode form.fields, IsUnescaped c ∨ c = '%' ∨ c = '+' ∨ c = '&' ∨ c = '=' := by
  have hkeys := (keys_of_perm_memeFields (.refl form.fields)).1
  obtain ⟨sent, hsent, hfields⟩ := h form.fields hkeys
  rw [hsent]
  exact bytes_queryText (fun f hf => (hkeys f hf).2) hfields

/-- **What `body_check` makes of a form.** -/
theorem bodyCheck_encode : ∃ accepted, bodyCheck (encode form.fields) = .ok accepted ∧
    ∀ texts, accepted = some texts ↔ Accepts form texts := by
  have hdecode := uriDecode_encode h form
  obtain ⟨accepted, haccepted⟩ : ∃ accepted, bodyCheck (encode form.fields) = .ok accepted := by
    unfold bodyCheck
    rw [hdecode]
    simp only [bind, Except.bind, pure, Except.pure]
    split_ifs <;> exact ⟨_, rfl⟩
  refine ⟨accepted, haccepted, fun texts => ?_⟩
  have hiff := bodyCheck_eq_some_iff hdecode texts
  rw [haccepted] at hiff
  exact ⟨fun hsome => hiff.mp (congrArg _ hsome), fun hacc => Except.ok.inj (hiff.mpr hacc)⟩

end Body

end GittyUp
