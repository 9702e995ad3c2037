import GittyUp.Meme.Browser
import GittyUp.Web.Gallery

/-!
# What the scripts make of the answers

The callbacks get what the handler has encoded (`callback_success`), the entries of
a list are taken apart as they were put together (`listItem_entry`), and a redirection
leads to the page with the script that asks for the same meme.
-/

namespace GittyUp

open Lib

/-! ## Responses -/

@[simp] theorem lookup_typedResponse (code : Nat) (body contentType : Bytes) :
    (typedResponse code body contentType).responseHeaders.lookup (lit "Content-Type") =
      some contentType :=
  AList.lookup_insert _

namespace Browser.Standard

variable {b : Browser} (hb : b.Standard) {response : Response} {text : Bytes}

include hb

/-- `success` is called with the data of the body. -/
theorem callback_success {code : Nat} {body : Bytes} {data : Json}
    (h : IsTextOf (typedResponse code body "application/json") text) (hcode : code ∈ [200, 201])
    (hdata : Json.parse body = some data) : b.callback text = some data := by
  obtain ⟨headers, hresponse, hheaders⟩ := h
  have hrange : 200 ≤ code ∧ code < 300 := by
    simp only [List.mem_cons, List.not_mem_nil, or_false] at hcode
    omega
  exact hb.success _ _ _ _ _ hresponse hrange ((hheaders _ _).mpr (lookup_typedResponse ..)) hdata

theorem callback_error (h : IsTextOf response text) (hcode : 400 ≤ response.statusCode) :
    b.callback text = none := by
  obtain ⟨headers, hresponse, -⟩ := h
  exact hb.error _ _ _ _ hresponse hcode

/-- A redirection is followed to its `Location`. -/
theorem redirect_eq {location target : Bytes} (h : IsTextOf (redirectRequest location) text)
    (htarget : (redirectRequest location).responseHeaders.lookup (lit "Location") = some target) :
    b.redirect text = some target := by
  obtain ⟨headers, hresponse, hheaders⟩ := h
  exact hb.redirect _ _ _ _ hresponse ((hheaders _ _).mpr htarget)

end Browser.Standard

/-! ## Data -/

/-- The object with an id. -/
def idJson (id : Bytes) : Json := .object [("id", .string id)]

theorem parse_idBody {id : Bytes} (h : IsUuid id) : Json.parse (idBody id) = some (idJson id) := by
  have hchars : ∀ c ∈ id, Json.IsStringChar c :=
    fun c hc => (isPart_of_hex (chars_of_checkId h.checkId) c hc).1
  have hbrace : ('\x7d' : Byte) ≠ '"' := by decide
  have hobject := Json.parse_object (fun fuel =>
    .cons (Json.reads_member (k := lit "id") (by decide) (show ∀ c ∈ lit " ", _ by decide)
      (Json.reads_string hchars fuel)) .nil)
    (List.forall_mem_singleton.mpr (starts_quoted hbrace _ _))
    (show ∀ c ∈ ([] : Bytes), Json.IsBlank c by simp)
  rw [idJson, ← hobject]
  congr 1
  simp [idBody, Json.quoted, lit]

theorem listEntries_strings (entries : List Bytes) :
    listEntries (.array (entries.map .string)) = some entries := by
  show List.mapM _ (entries.map Json.string) = some entries
  induction entries with
  | nil => rfl
  | cons entry entries ih =>
    rw [List.map_cons, List.mapM_cons, ih]
    rfl

/-! ## Lists -/

/-- The memes have UUIDs, texts that were checked, and numbers of views that an `int`
holds. -/
def Listable (listed : List (Bytes × Meme)) : Prop :=
  ∀ p ∈ listed, IsUuid p.1 ∧ p.2.texts.Proper ∧ p.2.views < 2 ^ 31

theorem Listable.sound {listed : List (Bytes × Meme)} (h : Listable listed) :
    ∀ p ∈ listed, (p.2.record p.1).Sound IsIntText := by
  intro p hp
  obtain ⟨hid, htexts, hviews⟩ := h p hp
  exact ⟨hid.checkId, htexts, p.2.views, by omega, by omega, (intText_ofNat hviews).symm⟩

/-- The data of a list. -/
def memesJson (listed : List (Bytes × Meme)) : Json :=
  .array (((listed.map fun p => p.2.record p.1).map MemeRecord.entry).map .string)

theorem parse_memesBody {listed : List (Bytes × Meme)} (h : Listable listed) :
    Json.parse (memesBody listed) = some (memesJson listed) := by
  rw [memesBody, memesJson, parse_listBody]
  rw [List.forall_mem_map]
  exact h.sound

/-- **An entry is shown as the meme that it was written for.** -/
theorem listItem_entry {p : Bytes × Meme} (h : (p.2.record p.1).Sound IsIntText) :
    listItem (p.2.record p.1).entry = itemOf p := by
  unfold listItem
  simp only [splitOn_entry h]
  rfl

/-- **What `populateList` makes of the data.** -/
theorem items_memesJson {listed : List (Bytes × Meme)} (h : Listable listed) :
    ∃ entries, listEntries (memesJson listed) = some entries ∧
      entries.map listItem = listed.map itemOf ∧ entries.length = listed.length := by
  refine ⟨_, listEntries_strings _, ?_, by rw [List.length_map, List.length_map]⟩
  rw [List.map_map, List.map_map]
  exact List.map_congr_left fun p hp => listItem_entry (h.sound p hp)

/-! ## URLs -/

theorem cutAt_mark (path : Bytes) (h : ('?' : Byte) ∉ path) (rest : Bytes) :
    cutAt (lit "?") (path ++ lit "?" ++ rest) = some (path, rest) := by
  refine cutAt_append (by decide) ?_
  rw [List.append_assoc]
  exact noneBefore_word h

/-- `q` is found in the URL that the form of the list leads to. -/
theorem queryOf_search {sent : Bytes}
    (h : ∀ c ∈ sent, IsUnescaped c ∨ c = '%' ∨ c = '+') :
    queryOf (lit "/web/memes/list.html?" ++ (lit "q=" ++ sent)) = some sent := by
  have hnot : ('&' : Byte) ∉ lit "q=" ++ sent ∧ ('=' : Byte) ∉ sent := by
    constructor
    · rintro hmem
      rcases List.mem_append.mp hmem with hmem | hmem
      · exact absurd hmem (by decide)
      · exact absurd (h _ hmem) (by decide)
    · intro hmem
      exact absurd (h _ hmem) (by decide)
  have hparts : (lit "q=" ++ sent).splitOn ('&' : Byte) = [lit "q=" ++ sent] := by
    have hone := List.splitOn_intercalate ('&' : Byte) (List.forall_mem_singleton.mpr hnot.1)
      (List.cons_ne_nil _ _)
    rwa [List.intercalate_singleton] at hone
  have hpart : (lit "q=" ++ sent).splitOn ('=' : Byte) = [lit "q", sent] := by
    have hkey : ('=' : Byte) ∉ lit "q" := by decide
    have htwo := List.splitOn_intercalate ('=' : Byte) (List.forall_mem_cons.mpr
      ⟨hkey, List.forall_mem_singleton.mpr hnot.2⟩) (List.cons_ne_nil _ _)
    rwa [List.intercalate_cons_cons, List.intercalate_singleton] at htwo
  unfold queryOf
  rw [show lit "/web/memes/list.html?" = lit "/web/memes/list.html" ++ lit "?" from rfl,
    cutAt_mark _ (by decide)]
  dsimp only
  rw [hparts, List.map_singleton, hpart]
  rfl

section Pages

variable (b : Browser)

theorem openPage_list : openPage b "/web/memes/list.html" = getMemeList b "/memes" none := rfl

theorem openPage_view (id : Bytes) :
    openPage b (lit "/web/memes/view.html?id=" ++ id) = viewReady b (lit "?id=" ++ id) := by
  have hcut := cutAt_mark (lit "/web/memes/view.html") (by decide) (lit "id=" ++ id)
  unfold openPage
  rw [show lit "/web/memes/view.html?id=" ++ id =
    lit "/web/memes/view.html" ++ lit "?" ++ (lit "id=" ++ id) from rfl, hcut]
  rfl

theorem openPage_manage (id : Bytes) :
    openPage b (lit "/web/memes/manage.html?id=" ++ id) = manageReady b (lit "?id=" ++ id) := by
  have hcut := cutAt_mark (lit "/web/memes/manage.html") (by decide) (lit "id=" ++ id)
  unfold openPage
  rw [show lit "/web/memes/manage.html?id=" ++ id =
    lit "/web/memes/manage.html" ++ lit "?" ++ (lit "id=" ++ id) from rfl, hcut]
  rfl

/-- The form of the list searches, if it was filled in. -/
theorem openPage_search {sent : Bytes} (h : ∀ c ∈ sent, IsUnescaped c ∨ c = '%' ∨ c = '+') :
    openPage b (lit "/web/memes/list.html?" ++ (lit "q=" ++ sent)) =
      if sent = [] then getMemeList b "/memes" none
      else getMemeList b (lit "/memes/search/" ++ sent) (some sent) := by
  have hcut := cutAt_mark (lit "/web/memes/list.html") (by decide) (lit "q=" ++ sent)
  have hquery := queryOf_search h
  unfold openPage
  rw [show lit "/web/memes/list.html?" ++ (lit "q=" ++ sent) =
    lit "/web/memes/list.html" ++ lit "?" ++ (lit "q=" ++ sent) from rfl] at hquery ⊢
  rw [hcut]
  show listReady b _ = _
  rw [listReady, hquery]

end Pages

/-! ## Redirections -/

/-- The page that each link leads to. -/
def Link.page : Link → Bytes
  | .create => "/web/memes/create.html"
  | .list => "/web/memes/list.html"
  | .view id => lit "/web/memes/view.html?id=" ++ id
  | .manage id => lit "/web/memes/manage.html?id=" ++ id

/-- The links to single memes are to UUIDs. -/
def Link.Proper : Link → Prop
  | .create | .list => True
  | .view id | .manage id => IsUuid id

/-- **The handler redirects every link to its page.** -/
theorem Link.getTarget_href {link : Link} (h : link.Proper) :
    ∃ location, getTarget (checkUri link.href) = .redirect location ∧
      (redirectRequest location).responseHeaders.lookup (lit "Location") = some link.page := by
  have hcheck : ∀ {s t : Bytes}, OneLine s → OneLine t →
      checkUri (lit "/memes/" ++ (s ++ t)) = s ++ t := fun hs ht =>
    checkUri_memes fun c hc => (List.mem_append.mp hc).elim (hs c) (ht c)
  have hne : ∀ {id : Bytes}, IsUuid id → id ≠ [] := by
    rintro _ hid rfl
    exact absurd hid.1 (by decide)
  cases link with
  | create => exact ⟨lit "create", by decide +kernel, AList.lookup_insert _⟩
  | list => exact ⟨lit "list", by decide +kernel, AList.lookup_insert _⟩
  | view id =>
    refine ⟨id, ?_, ?_⟩
    · show getTarget (checkUri (lit "/memes/" ++ (lit "view/" ++ id))) = _
      rw [hcheck (by decide) h.oneLine, getTarget_view (hne h)]
    · have hchars := chars_of_checkId h.checkId
      have hlength := h.1
      have hnot : id ≠ lit "create" ∧ id ≠ lit "list" ∧ id.take 7 ≠ lit "manage/" := by
        refine ⟨?_, ?_, fun htake => ?_⟩
        · rintro rfl
          exact absurd hlength (by decide)
        · rintro rfl
          exact absurd hlength (by decide)
        · have hm : ('m' : Byte) ∈ id.take 7 := by
            rw [htake]
            decide
          exact absurd (hchars _ (List.mem_of_mem_take hm)) (by decide)
      unfold redirectRequest
      rw [if_neg hnot.1, if_neg hnot.2.1, if_neg hnot.2.2]
      exact AList.lookup_insert _
  | manage id =>
    refine ⟨lit "manage/" ++ id, ?_, ?_⟩
    · show getTarget (checkUri (lit "/memes/" ++ (lit "manage/" ++ id))) = _
      rw [hcheck (by decide) h.oneLine, getTarget_manage (hne h)]
    · unfold redirectRequest
      rw [if_neg, if_neg, if_pos]
      · exact AList.lookup_insert _
      · exact List.take_left' rfl
      all_goals simp [lit]

end GittyUp
