import GittyUp.Meme.Search
import GittyUp.Router.Splitting
import GittyUp.Server.Lifecycle
import GittyUp.Web.Requests

/-!
# A server and a browser

The browser sends the text of a request, and the session reads as much of it as fits
its buffer, routes it to a handler and writes a response, which the browser reads.
`exec_eq`: a request of a page, if it fits, is answered with what the meme handler
returns to it.
-/

namespace GittyUp

open Lib

/-- A server with its table, and the browser of its users. -/
structure Site (Db : Type) where
  sqlite : Sqlite Db
  env : ServerSurroundings
  router : Router
  /-- What the handlers of other classes return or throw. -/
  handle : RouteHandler → Request → Except StdException Response
  /-- The UUID that is drawn for a request, by the number of requests before it. -/
  uuid : Nat → Bytes
  browser : Browser

/-- The table, and how many requests have been served. -/
structure SiteState (Db : Type) where
  db : Db
  served : Nat

variable {Db : Type}

namespace Site

variable (site : Site Db)

/-- `router::select_handler`, and `handle_request` of the handler. -/
def handleRequest (st : SiteState Db) (req : Request) : Except Abort Response × Db :=
  match selectRouteHandler site.env.stalePort site.router
      (site.env.order site.router.routeMap) req.uri with
  | none => (.error .undefinedBehaviour, st.db)
  | some (.meme _ _) =>
    (GittyUp.handleRequest (site.uuid st.served) req).run site.sqlite.exec st.db
  | some rh => ((site.handle rh req).mapError .exception, st.db)

/-- `session::handle_success` on the bytes transferred: the text that it writes. -/
def handleSuccess (st : SiteState Db) (data : Bytes) : Except Abort Bytes × SiteState Db :=
  let req := Request.mk' site.env.stale data
  let write (result : Except StdException Response) : Except Abort Bytes :=
    .ok (GittyUp.handleSuccess (site.env.session result) data)
  if req.valid then
    match site.handleRequest st req with
    | (.ok output, db) =>
      (write (.ok (output.setHeaders (site.env.order site.router.headers))), ⟨db, st.served + 1⟩)
    | (.error (.exception e), db) => (write (.error e), ⟨db, st.served + 1⟩)
    | (.error .undefinedBehaviour, db) => (.error .undefinedBehaviour, ⟨db, st.served + 1⟩)
  else (write (.error .invalidArgument), ⟨st.db, st.served + 1⟩)

/-- A request that is delivered in one chunk. -/
def exec (st : SiteState Db) (settings : AjaxSettings) : Except Abort Bytes × SiteState Db :=
  site.handleSuccess st ((site.browser.requestText settings).take maxLength)

/-- A site as `main` makes it: requests for memes are routed to the meme handler, no
default headers are registered, and no UUID is drawn twice while views can be
counted. -/
structure Proper (IsChar : Bytes → Prop) : Prop where
  standard : site.sqlite.Standard memeSchema
  reliable : site.sqlite.Reliable memeSchema
  searches : site.sqlite.Searches memeSchema IsChar
  routes : ∀ uri, lit "/memes" <+: uri → ∃ memes templates,
    selectRouteHandler site.env.stalePort site.router (site.env.order site.router.routeMap) uri =
      some (.meme memes templates)
  headers : site.router.headers = ∅
  uuids : ∀ n, IsUuid (site.uuid n)
  fresh : Set.InjOn site.uuid {n | n < 2 ^ 31 - 1}
  browser : site.browser.Standard

/-- The text of the request fits the buffer of the session. -/
def Fits (settings : AjaxSettings) : Prop :=
  (site.browser.requestText settings).length ≤ maxLength

end Site

/-! ## A request on its way to the handler -/

/-- A URL has one line and no query. -/
theorem AjaxSettings.Proper.url_plain {settings : AjaxSettings} (h : settings.Proper) :
    ∀ c ∈ settings.url, c ≠ '?' ∧ c ≠ lf ∧ c ≠ cr := by
  obtain ⟨segments, -, hsegments, hurl⟩ := h.url
  intro c hc
  rw [hurl] at hc
  obtain ⟨segment, hsegment, hc⟩ := List.mem_flatMap.mp hc
  have hslash : ∀ c ∈ lit "/", c ≠ '?' ∧ c ≠ lf ∧ c ≠ cr := by decide
  rcases List.mem_append.mp hc with hc | hc
  · exact hslash c hc
  · rcases (hsegments segment hsegment).bytes c hc with hc | rfl | rfl
    · exact ⟨hc.plain.2.2.2.1, hc.plain.2.2.2.2.2.2⟩
    · decide
    · decide

theorem AjaxSettings.Proper.oneLine_data {settings : AjaxSettings} (h : settings.Proper) :
    OneLine (settings.data.getD []) := by
  cases hdata : settings.data with
  | none => exact fun c hc => absurd hc List.not_mem_nil
  | some data =>
    intro c hc
    rcases h.data data hdata c hc with hc | rfl | rfl | rfl | rfl
    · exact hc.plain.2.2.2.2.2.2
    all_goals decide

/-- **What the server parses** is what the browser was given. -/
theorem Browser.Standard.mk'_requestText {b : Browser} (hb : b.Standard) {settings : AjaxSettings}
    (h : settings.Proper) (stale : Bytes) :
    (Request.mk' stale (b.requestText settings)).valid = true ∧
      (Request.mk' stale (b.requestText settings)).method = settings.type ∧
      (Request.mk' stale (b.requestText settings)).uri = settings.url ∧
      (Request.mk' stale (b.requestText settings)).requestBody = settings.data.getD [] := by
  obtain ⟨headers, hheaders, hline⟩ := hb.requestText settings h
  have hrequest : IsRequest (b.requestText settings) headers (settings.data.getD []) :=
    ⟨⟨_, _, hline⟩, hheaders⟩
  have hvalid := hrequest.valid stale
  obtain ⟨hmethod, huri, -⟩ := mk'_of_requestLine stale hline
  obtain ⟨head, htext⟩ := hrequest.blank_line
  refine ⟨hvalid, hmethod, ?_, ?_⟩
  · rw [huri, parseQueryString_uri_none stale fun hmark => (h.url_plain _ hmark).1 rfl]
  · rw [(mk'_of_valid hvalid).2, htext]
    exact (parseBody_eq_iff head _).mpr h.oneLine_data

namespace Site.Proper

variable {site : Site Db} {IsChar : Bytes → Prop} (h : site.Proper IsChar)

include h

/-- **A request of a page is answered as the meme handler says.** -/
theorem exec_eq {settings : AjaxSettings} (hsettings : settings.Proper)
    (hmemes : lit "/memes" <+: settings.url) (hfits : site.Fits settings) (st : SiteState Db) :
    ∃ req : Request, req.method = settings.type ∧ req.uri = settings.url ∧
      req.requestBody = settings.data.getD [] ∧
      ∀ response db, (GittyUp.handleRequest (site.uuid st.served) req).run site.sqlite.exec st.db =
          (.ok response, db) →
        ∃ text, site.exec st settings = (.ok text, ⟨db, st.served + 1⟩) ∧
          IsTextOf response text := by
  obtain ⟨hvalid, hmethod, huri, hbody⟩ := h.browser.mk'_requestText hsettings site.env.stale
  refine ⟨_, hmethod, huri, hbody, fun response db hrun => ?_⟩
  obtain ⟨memes, templates, hroute⟩ := h.routes _ hmemes
  have hclean : response.Clean := by
    refine clean_handleRequest ?_ (Prog.yields_of_run hrun)
    rw [huri]
    exact fun c hc => (hsettings.url_plain c hc).2
  have horder := site.env.iterated response.responseHeaders
  have hheaders : site.env.order site.router.headers = [] := by
    rw [h.headers]
    exact List.perm_nil.mp (site.env.iterated ∅)
  have hexec : site.exec st settings =
      (.ok (response.generateResponse (site.env.order response.responseHeaders)),
        ⟨db, st.served + 1⟩) := by
    rw [exec, List.take_of_length_le hfits, Site.handleSuccess]
    dsimp only
    rw [if_pos hvalid, Site.handleRequest, huri, hroute]
    dsimp only
    rw [hrun, hheaders]
    dsimp only
    rw [handleSuccess_of_holder hvalid]
    rfl
  exact ⟨_, hexec, _, ⟨readResponse_generateResponse hclean horder, horder.nodup⟩, horder.mem_iff⟩

end Site.Proper

end GittyUp
