import GittyUp.Http.Target
import GittyUp.Http.Wire
import GittyUp.Router.Handlers

/-!
# No response splitting

The target of a valid request is matched by dots, so that it has no line break;
neither has any part of it. All that a handler puts into a header is a constant,
or part of the target.
-/

namespace GittyUp

open Lib Regex

/-! ## The URI -/

/-- What a group of a match captures is one line if the text is. -/
theorem oneLine_str {r : Regex Byte} {text : Bytes} {m : Match Byte} (h : r.search text = some m)
    (htext : OneLine text) (n : Nat) : OneLine (m.str (n + 1)) := by
  rcases (finds_of_search h).str_group n with hnil | ⟨s, pre, post, -, -, hcut⟩
  · rw [hnil]
    exact fun c hc => absurd hc List.not_mem_nil
  · rw [hcut] at htext
    exact (oneLine_append.mp (oneLine_append.mp htext).1).2

/-- The URI of a valid request is one line. -/
theorem oneLine_uri {stale data : Bytes} (h : (Request.mk' stale data).valid = true) :
    OneLine (Request.mk' stale data).uri := by
  obtain ⟨method, target, rest, hline⟩ := (valid_iff_requestLine stale data).mp h
  have htarget : OneLine target := hline.2.1.2
  rw [(mk'_of_requestLine stale hline).2.1, parseQueryString]
  cases hsearch : queryStringRegex.search target with
  | none => exact htarget
  | some m => exact oneLine_str hsearch htarget 0

theorem oneLine_checkUri {uri : Bytes} (h : OneLine uri) : OneLine (checkUri uri) := by
  unfold checkUri
  cases hsearch : checkUriRegex.search uri with
  | none => exact fun c hc => absurd hc List.not_mem_nil
  | some m => exact oneLine_str hsearch h 0

/-! ## The responses -/

theorem clean_typedResponse (statusCode : Nat) (body : Bytes) {contentType : Bytes}
    (h : OneLine contentType) : (typedResponse statusCode body contentType).Clean :=
  (Response.clean_mk' statusCode body).setHeader (isHeader_contentType h)

theorem clean_plain (statusCode : Nat) (body : Bytes) :
    (typedResponse statusCode body "text/plain").Clean :=
  clean_typedResponse statusCode body (by decide)

theorem clean_json (statusCode : Nat) (body : Bytes) :
    (typedResponse statusCode body "application/json").Clean :=
  clean_typedResponse statusCode body (by decide)

theorem oneLine_getMimeType (extension : Bytes) : OneLine (getMimeType extension) := by
  unfold getMimeType
  cases hlookup : mimeTypes.lookup extension with
  | none => exact (by decide : OneLine (lit "application/octet-stream"))
  | some mimeType =>
    obtain ⟨before, after, htable, -⟩ := List.lookup_eq_some_iff.mp hlookup
    have hall : ∀ p ∈ mimeTypes, OneLine p.2 := by decide
    exact hall (extension, mimeType) (by rw [htable]; simp)

/-- The text of the URI goes into `Location` as it is. -/
theorem clean_redirectRequest {location : Bytes} (h : OneLine location) :
    (redirectRequest location).Clean := by
  refine (Response.clean_mk' 303 _).setHeader (isHeader_of_name (by decide) ?_)
  split_ifs
  · exact (by decide : OneLine (lit "/web/memes/create.html"))
  · exact (by decide : OneLine (lit "/web/memes/list.html"))
  · exact (by decide : OneLine (lit "/web/memes/manage.html?id=")).append
      fun c hc => h c (List.mem_of_mem_drop hc)
  · exact (by decide : OneLine (lit "/web/memes/view.html?id=")).append h

/-! ## The meme handler -/

theorem clean_memeArray {rows : List Row} {resp : Response} (h : (memeArray rows).Yields resp) :
    resp.Clean := by
  unfold memeArray at h
  dsimp only at h
  split at h
  · obtain rfl := h
    exact clean_typedResponse _ _ (oneLine_getMimeType _)
  · exact h.elim

theorem clean_createMeme {uuid : Bytes} {req : Request} {resp : Response}
    (h : (createMeme uuid req).Yields resp) : resp.Clean := by
  obtain ⟨params, -, h⟩ := Prog.yields_bind.mp h
  cases params with
  | none =>
    obtain rfl := h
    exact clean_plain _ _
  | some params =>
    obtain ⟨create, -, h⟩ := Prog.yields_bind.mp h
    cases create with
    | true =>
      obtain rfl := h
      exact clean_json _ _
    | false =>
      obtain rfl := h
      exact clean_plain _ _

theorem clean_updateMeme {req : Request} {id : Bytes} {resp : Response}
    (h : (updateMeme req id).Yields resp) : resp.Clean := by
  obtain ⟨params, -, h⟩ := Prog.yields_bind.mp h
  cases hid : checkId id with
  | false =>
    rw [hid] at h
    obtain rfl := h
    exact clean_plain _ _
  | true =>
    rw [hid] at h
    cases params with
    | none =>
      obtain rfl := h
      exact clean_plain _ _
    | some params =>
      obtain ⟨update, -, h⟩ := Prog.yields_bind.mp h
      cases update with
      | true =>
        obtain rfl := h
        exact clean_json _ _
      | false =>
        obtain rfl := h
        exact clean_plain _ _

theorem clean_deleteMeme {id : Bytes} {resp : Response} (h : (deleteMeme id).Yields resp) :
    resp.Clean := by
  unfold deleteMeme at h
  cases hid : checkId id with
  | false =>
    rw [hid] at h
    obtain rfl := h
    exact clean_plain _ _
  | true =>
    rw [hid] at h
    obtain ⟨del, -, h⟩ := Prog.yields_bind.mp h
    cases del with
    | true =>
      obtain rfl := h
      exact clean_json _ _
    | false =>
      obtain rfl := h
      exact clean_plain _ _

theorem clean_memeResponse (texts : MemeTexts) : (memeResponse texts).Clean := by
  unfold memeResponse
  split_ifs
  · exact clean_typedResponse _ _ (oneLine_getMimeType _)
  · exact clean_typedResponse _ _ (oneLine_getMimeType _)

theorem clean_countView {rows : List Row} {resp : Response} (h : (countView rows).Yields resp) :
    resp.Clean := by
  match rows with
  | [] =>
    obtain rfl := h
    exact clean_plain _ _
  | _ :: _ :: _ =>
    obtain rfl := h
    exact clean_plain _ _
  | [[]] => exact h.elim
  | [[_]] => exact h.elim
  | [[_, _]] => exact h.elim
  | [[_, _, _]] => exact h.elim
  | [id :: memeTemplate :: topCaption :: bottomCaption :: row] =>
    rw [countView] at h
    cases hviews : timesViewed (id :: memeTemplate :: topCaption :: bottomCaption :: row) with
    | error e =>
      simp only [hviews] at h
      exact h.elim
    | ok n =>
      simp only [hviews] at h
      obtain ⟨_, -, h⟩ := Prog.yields_bind.mp h
      obtain rfl := h
      exact clean_memeResponse _

/-- What a GET asks for is part of the URI. -/
theorem oneLine_getTarget {check location : Bytes} (h : OneLine check)
    (htarget : getTarget check = .redirect location) : OneLine location := by
  unfold getTarget at htarget
  split_ifs at htarget <;> obtain rfl := GetTarget.redirect.inj htarget
  · decide
  · decide
  · exact h
  · exact fun c hc => h c (List.mem_of_mem_drop hc)

/-- **The meme handler never breaks a header line.** -/
theorem clean_handleRequest {uuid : Bytes} {req : Request} (huri : OneLine req.uri)
    {resp : Response} (h : (handleRequest uuid req).Yields resp) : resp.Clean := by
  unfold handleRequest at h
  split_ifs at h
  · exact clean_createMeme h
  · exact clean_updateMeme h
  · exact clean_deleteMeme h
  · cases htarget : getTarget (checkUri req.uri) with
    | redirect location =>
      rw [htarget] at h
      obtain rfl := h
      exact clean_redirectRequest (oneLine_getTarget (oneLine_checkUri huri) htarget)
    | list =>
      rw [htarget] at h
      obtain ⟨rows, -, h⟩ := Prog.yields_bind.mp h
      exact clean_memeArray h
    | search query =>
      rw [htarget] at h
      obtain ⟨decoded, -, h⟩ := Prog.yields_bind.mp h
      obtain ⟨rows, -, h⟩ := Prog.yields_bind.mp h
      exact clean_memeArray h
    | byId id =>
      rw [htarget] at h
      obtain ⟨rows, -, h⟩ := Prog.yields_bind.mp h
      exact clean_countView h
  · obtain rfl := h
    exact clean_plain _ _

/-! ## All handlers -/

theorem clean_staticHandleRequest (files : FileSystem) (path : Bytes) (req : Request) :
    (staticHandleRequest files path req).Clean := by
  unfold staticHandleRequest serveFile
  split_ifs
  · cases parseFileInfo req.uri with
    | none => exact clean_plain _ _
    | some info =>
      dsimp only
      cases files.entry (cStr (path ++ lit "/" ++ info.1 ++ info.2)) with
      | none => exact clean_plain _ _
      | some f => exact clean_typedResponse _ _ (oneLine_getMimeType _)
  · exact clean_plain _ _

/-- One case per handler. -/
theorem Returns.clean {env : HandlerSurroundings} {req : Request} {handlerClass : HandlerClass}
    {config : Option NginxConfig} {resp : Response} (huri : OneLine req.uri)
    (h : Returns env req handlerClass config resp) : resp.Clean := by
  cases h with
  | echo => exact clean_plain _ _
  | staticFile => exact clean_staticHandleRequest _ _ _
  | status => exact clean_typedResponse 200 _ (by decide : OneLine (lit "text/html"))
  | meme h => exact clean_handleRequest huri h
  | health =>
    unfold healthHandleRequest
    split_ifs
    · exact clean_plain _ _
    · exact clean_plain _ _
  | default => exact clean_plain _ _

/-- **No response splitting**: whatever bytes are received, no header name or
value of the response has a line break, and the header block is well-formed in
any order of iteration. -/
theorem no_response_splitting {stale data : Bytes}
    (hvalid : (Request.mk' stale data).valid = true) {r : Router} {order : List (Bytes × Bytes)}
    {env : HandlerSurroundings} {resp : Response}
    (h : Serves r order env (Request.mk' stale data) resp) :
    (∀ name value, resp.responseHeaders.lookup name = some value → OneLine name ∧ OneLine value) ∧
      ∀ headerOrder, resp.responseHeaders.IteratedAs headerOrder →
        ∃ headers : List (Bytes × Bytes), (∀ h ∈ headers, IsHeader h) ∧
          Response.generateHeaderLines headerOrder = headers.flatMap headerLine ++ [cr, lf] := by
  obtain ⟨handlerClass, config, -, hreturns⟩ := h
  have hclean := hreturns.clean (oneLine_uri hvalid)
  refine ⟨fun name value hlookup => ?_, fun _ horder => hclean.headerBlock horder⟩
  obtain ⟨-, hname, -, hvalue⟩ := hclean name value hlookup
  exact ⟨hname, hvalue⟩

/-- A redirection to a page whose query is part of the URI. -/
theorem no_response_splitting_redirect :
    ∃ resp, Serves memeRouter [("/memes", "meme")] ⟨"", FileSystem.single "a" "b" (by decide), ""⟩
        (Request.mk' [] "GET /memes/view/x HTTP/1.1\r\n\r\n") resp ∧
      resp.getHeader "Location" = "/web/memes/view.html?id=x" ∧
      ∀ name value, resp.responseHeaders.lookup name = some value →
        OneLine name ∧ OneLine value := by
  have hserves : Serves memeRouter [("/memes", "meme")]
      ⟨"", FileSystem.single "a" "b" (by decide), ""⟩
      (Request.mk' [] "GET /memes/view/x HTTP/1.1\r\n\r\n") (redirectRequest "x") := by
    have hmethod : (Request.mk' [] "GET /memes/view/x HTTP/1.1\r\n\r\n").method = "GET" := by
      decide
    have htarget : getTarget (checkUri
        (Request.mk' [] "GET /memes/view/x HTTP/1.1\r\n\r\n").uri) = .redirect "x" := by
      decide
    refine ⟨.meme, some [.mk ["location", "/memes"] none], rfl, @Returns.meme _ _ _ [] _ ?_⟩
    unfold handleRequest
    rw [hmethod, htarget, if_neg (by decide), if_neg (by decide), if_neg (by decide), if_pos rfl]
    exact rfl
  exact ⟨_, hserves, rfl, (no_response_splitting (by decide) hserves).1⟩

end GittyUp
