import GittyUp.Web.Plain
import GittyUp.Web.Serving

/-!
# The pages show the gallery

Whatever users do in the pages, one step after another, they get to see what the
gallery says: `gallery_refines`. SQLite has to complete every statement, and the
requests have to fit the buffer of a session. Every script is followed through its
requests (`hoare_script`), and the runs are put together by the rule of refinement.
-/

namespace GittyUp

open Lib

variable {Db : Type}

/-! ## What a step sends -/

/-- The requests of the page that a link leads to. -/
def Link.loads : Link → List AjaxSettings
  | .create => []
  | .list => [⟨"/memes", "GET", none⟩]
  | .view id | .manage id => [⟨lit "/memes/" ++ id, "GET", none⟩]

/-- The text that is searched for, as the form sends it. -/
def sentQuery (b : Browser) (text : Bytes) : Bytes := (b.formQuery [("q", text)]).drop 2

/-- The requests of a step. -/
def Action.requests (b : Browser) : Action → List AjaxSettings
  | .follow link => ⟨link.href, "GET", none⟩ :: link.loads
  | .post form =>
    if requiredCheck form then [⟨"/memes/", "POST", some (b.serialize form.fields)⟩] else []
  | .submit id false _ form =>
    if requiredCheck form then
      [⟨lit "/memes/" ++ id, "PUT", some (b.serialize form.fields)⟩] else []
  | .submit id true confirmed _ =>
    if confirmed then [⟨lit "/memes/" ++ id, "DELETE", none⟩] else []
  | .search text =>
    if sentQuery b text = [] then [⟨"/memes", "GET", none⟩]
    else [⟨lit "/memes/search/" ++ sentQuery b text, "GET", none⟩]

/-- The ids are UUIDs, and what is searched for is no step in a path. -/
def Action.Proper : Action → Prop
  | .follow link => link.Proper
  | .post _ => True
  | .submit id _ _ _ => IsUuid id
  | .search text => NulFree text ∧ text ≠ lit "." ∧ text ≠ lit ".."

/-- A step whose requests fit the buffer of the session. -/
structure Action.Valid (site : Site Db) (action : Action) : Prop where
  proper : action.Proper
  fits : ∀ settings ∈ action.requests site.browser, site.Fits settings

/-! ## The scripts -/

theorem Gallery.after_view_none {g : Gallery} {id : Bytes} (h : g.memes id = none) :
    g.after (.view id) = g := by
  have hmemes : g.memes.apply (.view id) = g.memes := by
    rw [MemeMap.apply, h, Option.map_none, ← h, Function.update_eq_self]
  show Gallery.mk _ _ = g
  rw [hmemes]
  rfl

/-- The query of the form of the list. -/
theorem formQuery_text {b : Browser} (hb : b.Standard) (text : Bytes) :
    b.formQuery [("q", text)] = lit "q=" ++ sentQuery b text ∧
      Encodes IsUnescaped text (sentQuery b text) := by
  have hkey : lit "q" ≠ [] ∧ ∀ c ∈ lit "q", IsWordChar c := by decide
  obtain ⟨sent, hsent, hfields⟩ :=
    hb.formQuery [("q", text)] (List.forall_mem_singleton.mpr hkey)
  obtain ⟨f, _, hf, hnil, rfl⟩ := List.forall₂_cons_left_iff.mp hfields
  obtain rfl := List.forall₂_nil_left_iff.mp hnil
  have hquery : b.formQuery [("q", text)] = lit "q=" ++ f.2 := by
    rw [hsent, queryText, List.map_singleton, List.intercalate_singleton, paramText, hf.key]
    rfl
  have hsentQuery : sentQuery b text = f.2 := by
    rw [sentQuery, hquery]
    rfl
  rw [hsentQuery]
  exact ⟨hquery, hf.value⟩

section Scripts

variable {site : Site Db} {IsChar : Bytes → Prop} (hsite : site.Proper IsChar) {n : Nat}
  {g : Gallery}

include hsite

theorem parseUrl_id {id : Bytes} (hid : IsUuid id) :
    parseUrl site.browser (lit "?id=" ++ id) = id := by
  have hparam := hsite.browser.searchParam (lit "id") id (by decide) hid.bytes
  rw [parseUrl, show lit "?id=" ++ id = lit "?" ++ lit "id" ++ lit "=" ++ id from rfl, hparam]
  rfl

theorem hoare_viewReady {id : Bytes} (hid : IsUuid id)
    (hfits : site.Fits ⟨lit "/memes/" ++ id, "GET", none⟩) :
    Hoare site.exec (fun st => site.Backs (n + 1) st g) (viewReady site.browser (lit "?id=" ++ id))
      fun screen st => ∃ g', Gallery.Step IsChar g (.follow (.view id)) screen g' ∧
        site.Backs n st g' := by
  unfold viewReady
  rw [parseUrl_id hsite hid]
  refine (hoare_meme hsite hid hfits).bind fun data => ?_
  cases data with
  | none =>
    refine Hoare.ret ?_
    rintro st ⟨_, ⟨hdata, rfl⟩, hst⟩
    have hmeme : g.memes id = none := Option.map_eq_none_iff.mp hdata.symm
    exact ⟨g, .notViewed hmeme, Gallery.after_view_none hmeme ▸ hst⟩
  | some data =>
    refine Hoare.ret ?_
    rintro st ⟨_, ⟨hdata, rfl⟩, hst⟩
    obtain ⟨meme, hmeme, rfl⟩ := Option.map_eq_some_iff.mp hdata.symm
    exact ⟨_, .viewed hmeme, hst⟩

theorem hoare_manageReady {id : Bytes} (hid : IsUuid id)
    (hfits : site.Fits ⟨lit "/memes/" ++ id, "GET", none⟩) :
    Hoare site.exec (fun st => site.Backs (n + 1) st g)
      (manageReady site.browser (lit "?id=" ++ id)) fun screen st =>
        ∃ g', Gallery.Step IsChar g (.follow (.manage id)) screen g' ∧ site.Backs n st g' := by
  unfold manageReady ManagePage.opened
  rw [parseUrl_id hsite hid]
  refine (hoare_meme hsite hid hfits).bind fun data => ?_
  cases data with
  | none =>
    refine Hoare.ret ?_
    rintro st ⟨_, ⟨hdata, rfl⟩, hst⟩
    have hmeme : g.memes id = none := Option.map_eq_none_iff.mp hdata.symm
    exact ⟨g, .notEdited hmeme, Gallery.after_view_none hmeme ▸ hst⟩
  | some data =>
    refine Hoare.ret ?_
    rintro st ⟨_, ⟨hdata, rfl⟩, hst⟩
    obtain ⟨meme, hmeme, rfl⟩ := Option.map_eq_some_iff.mp hdata.symm
    exact ⟨_, .edited hmeme, hst⟩

omit hsite in
/-- The list is shown as it is answered. -/
theorem hoare_getMemeList {uri : Bytes} {keep : Meme → Prop} (search : Option Bytes)
    (h : Hoare site.exec (fun st => site.Backs (n + 1) st g) (ajax site.browser ⟨uri, "GET", none⟩)
      fun data st => ∃ c, ((∃ listed, Listable listed ∧ Lists g.memes keep listed ∧
        data = some (memesJson listed)) ∧ c = .other) ∧ site.Backs n st (g.after c)) :
    Hoare site.exec (fun st => site.Backs (n + 1) st g) (getMemeList site.browser uri search)
      fun screen st => ∃ listed, Lists g.memes keep listed ∧
        screen = .lister (listed.map itemOf)
          (search.map fun query => resultString query listed.length) ∧ site.Backs n st g := by
  unfold getMemeList
  refine h.bind fun data st hdata => ?_
  obtain ⟨_, ⟨⟨listed, hlistable, hlisted, rfl⟩, rfl⟩, hst⟩ := hdata
  obtain ⟨entries, hentries, hitems, hlength⟩ := items_memesJson hlistable
  refine ⟨_, st, ?_, listed, hlisted, rfl, hst⟩
  dsimp only
  rw [hentries, ← hitems, ← hlength]
  rfl

/-- **The page of a link.** -/
theorem hoare_openPage {link : Link} (hlink : link.Proper)
    (hfits : ∀ settings ∈ link.loads, site.Fits settings) :
    Hoare site.exec (fun st => site.Backs (n + link.loads.length) st g)
      (openPage site.browser link.page) fun screen st =>
        ∃ g', Gallery.Step IsChar g (.follow link) screen g' ∧ site.Backs n st g' := by
  cases link with
  | create => exact Hoare.ret fun st hst => ⟨g, .creator, hst⟩
  | list =>
    have hload := hfits _ List.mem_cons_self
    show Hoare _ _ (openPage site.browser "/web/memes/list.html") _
    rw [openPage_list]
    refine (hoare_getMemeList none (hoare_list hsite hload)).mono (fun _ hst => hst) ?_
    rintro screen st ⟨listed, hlisted, rfl, hst⟩
    exact ⟨g, .listed hlisted, hst⟩
  | view id =>
    show Hoare _ _ (openPage site.browser (lit "/web/memes/view.html?id=" ++ id)) _
    rw [openPage_view]
    exact hoare_viewReady hsite hlink (hfits _ List.mem_cons_self)
  | manage id =>
    show Hoare _ _ (openPage site.browser (lit "/web/memes/manage.html?id=" ++ id)) _
    rw [openPage_manage]
    exact hoare_manageReady hsite hlink (hfits _ List.mem_cons_self)

theorem hoare_followLink {link : Link} (hlink : link.Proper)
    (hfits : ∀ settings ∈ (Action.follow link).requests site.browser, site.Fits settings) :
    Hoare site.exec
      (fun st => site.Backs (n + ((Action.follow link).requests site.browser).length) st g)
      (followLink site.browser link.href) fun screen st =>
        ∃ g', Gallery.Step IsChar g (.follow link) screen g' ∧ site.Backs n st g' := by
  obtain ⟨hfirst, hloads⟩ := List.forall_mem_cons.mp hfits
  unfold followLink
  refine (hoare_link hsite hlink hfirst).bind fun text st hst => ?_
  obtain ⟨hredirect, hst⟩ := hst
  rw [hredirect]
  exact hoare_openPage hsite hlink hloads st hst

/-- **The form of the list.** -/
theorem hoare_searchList {text : Bytes}
    (htext : NulFree text ∧ text ≠ lit "." ∧ text ≠ lit "..")
    (hfits : ∀ settings ∈ (Action.search text).requests site.browser, site.Fits settings) :
    Hoare site.exec
      (fun st => site.Backs (n + ((Action.search text).requests site.browser).length) st g)
      ((Action.search text).script site.browser) fun screen st =>
        ∃ g', Gallery.Step IsChar g (.search text) screen g' ∧ site.Backs n st g' := by
  obtain ⟨hquery, hsent⟩ := formQuery_text hsite.browser text
  unfold Action.script
  dsimp only
  rw [hquery, openPage_search _ hsent.bytes]
  unfold Action.requests at hfits ⊢
  by_cases hempty : sentQuery site.browser text = []
  · dsimp only at hfits ⊢
    rw [if_pos hempty] at hfits ⊢
    rw [if_pos hempty]
    have htextEmpty : text = [] := hsent.eq_nil_iff.mp hempty
    refine (hoare_getMemeList none (hoare_list hsite (hfits _ List.mem_cons_self))).mono
      (fun _ hst => hst) ?_
    rintro screen st ⟨listed, hlisted, rfl, hst⟩
    exact ⟨g, htextEmpty ▸ .listedAll hlisted, hst⟩
  · dsimp only at hfits ⊢
    rw [if_neg hempty] at hfits ⊢
    rw [if_neg hempty]
    have hne : text ≠ [] := fun h => hempty (hsent.eq_nil_iff.mpr h)
    refine (hoare_getMemeList _ (hoare_search hsite htext.1 htext.2 hsent hempty
      (hfits _ List.mem_cons_self))).mono (fun _ hst => hst) ?_
    rintro screen st ⟨listed, hlisted, rfl, hst⟩
    exact ⟨g, .found hne hsent hlisted, hst⟩

/-! ### The forms of a meme -/

theorem hoare_postMemeData (form : MemeTexts)
    (hfits : ∀ settings ∈ (Action.post form).requests site.browser, site.Fits settings) :
    Hoare site.exec
      (fun st => site.Backs (n + ((Action.post form).requests site.browser).length) st g)
      (postMemeData site.browser form) fun screen st =>
        ∃ g', Gallery.Step IsChar g (.post form) screen g' ∧ site.Backs n st g' := by
  unfold Action.requests at hfits ⊢
  unfold postMemeData
  dsimp only at hfits ⊢
  by_cases hform : requiredCheck form = true
  · rw [if_pos hform] at hfits ⊢
    rw [if_pos hform]
    refine (hoare_post hsite form (hfits _ List.mem_cons_self)).bind fun data => ?_
    cases data with
    | none =>
      refine Hoare.ret ?_
      rintro st ⟨_, ⟨-, hnot, rfl⟩ | ⟨_, _, hdata, -⟩, hst⟩
      · exact ⟨g, .notPosted hform hnot, hst⟩
      · contradiction
    | some data =>
      refine Hoare.ret ?_
      rintro st ⟨_, ⟨hdata, -⟩ | ⟨id, texts, hdata, haccepts, hfresh, rfl⟩, hst⟩
      · contradiction
      · obtain rfl := Option.some.inj hdata
        exact ⟨_, .posted hform haccepts hfresh, hst⟩
  · rw [if_neg hform] at hfits ⊢
    rw [if_neg hform]
    exact Hoare.ret fun st hst => ⟨g, .incomplete (Bool.eq_false_iff.mpr hform), hst⟩

theorem hoare_putMemeData {id : Bytes} (hid : IsUuid id) (confirmed : Bool) (form : MemeTexts)
    (hfits : ∀ settings ∈ (Action.submit id false confirmed form).requests site.browser,
      site.Fits settings) :
    Hoare site.exec (fun st => site.Backs
        (n + ((Action.submit id false confirmed form).requests site.browser).length) st g)
      (putMemeData site.browser ⟨id, lit "/memes/" ++ id, "PUT"⟩ form) fun screen st =>
        ∃ g', Gallery.Step IsChar g (.submit id false confirmed form) screen g' ∧
          site.Backs n st g' := by
  unfold Action.requests at hfits ⊢
  unfold putMemeData
  dsimp only at hfits ⊢
  by_cases hform : requiredCheck form = true
  · rw [if_pos hform] at hfits ⊢
    rw [if_pos hform]
    refine (hoare_put hsite form hid (hfits _ List.mem_cons_self)).bind fun data => ?_
    cases data with
    | none =>
      refine Hoare.ret ?_
      rintro st ⟨_, ⟨-, hnot, rfl⟩ | ⟨_, hdata, -⟩, hst⟩
      · exact ⟨g, .notChanged hform hnot, hst⟩
      · contradiction
    | some data =>
      refine Hoare.ret ?_
      rintro st ⟨_, ⟨hdata, -⟩ | ⟨texts, hdata, haccepts, rfl⟩, hst⟩
      · contradiction
      · exact ⟨_, .changed hform haccepts, hst⟩
  · rw [if_neg hform] at hfits ⊢
    rw [if_neg hform]
    exact Hoare.ret fun st hst => ⟨g, .changeIncomplete (Bool.eq_false_iff.mpr hform), hst⟩

theorem hoare_deleteMemeData {id : Bytes} (hid : IsUuid id) (form : MemeTexts)
    (hfits : site.Fits ⟨lit "/memes/" ++ id, "DELETE", none⟩) :
    Hoare site.exec (fun st => site.Backs (n + 1) st g)
      (deleteMemeData site.browser ⟨id, lit "/memes/" ++ id, "DELETE"⟩) fun screen st =>
        ∃ g', Gallery.Step IsChar g (.submit id true true form) screen g' ∧
          site.Backs n st g' := by
  unfold deleteMemeData
  refine (hoare_delete hsite hid hfits).bind fun data st hdata => ?_
  obtain ⟨_, ⟨rfl, rfl⟩, hst⟩ := hdata
  exact ⟨_, st, rfl, _, .deleted, hst⟩

/-- The form of a page that manages a meme. -/
theorem script_submit {id : Bytes} (hid : IsUuid id) (deletes confirmed : Bool)
    (form : MemeTexts) : (Action.submit id deletes confirmed form).script site.browser =
      ManagePage.sendRequest site.browser
        ⟨id, lit "/memes/" ++ id, if deletes then "DELETE" else "PUT"⟩ confirmed form := by
  unfold Action.script ManagePage.opened
  dsimp only
  rw [parseUrl_id hsite hid]
  rfl

/-- **Every script shows what its step says**, and sends the requests of the step. -/
theorem hoare_script {action : Action} (h : action.Valid site) :
    Hoare site.exec
      (fun st => site.Backs (n + (action.requests site.browser).length) st g)
      (action.script site.browser) fun screen st =>
        ∃ g', Gallery.Step IsChar g action screen g' ∧ site.Backs n st g' := by
  obtain ⟨hproper, hfits⟩ := h
  cases action with
  | follow link => exact hoare_followLink hsite hproper hfits
  | post form => exact hoare_postMemeData hsite form hfits
  | submit id deletes confirmed form =>
    have hid : IsUuid id := hproper
    rw [script_submit hsite hid]
    cases deletes with
    | false => exact hoare_putMemeData hsite hid confirmed form hfits
    | true =>
      cases confirmed with
      | true => exact hoare_deleteMemeData hsite hid form (hfits _ List.mem_cons_self)
      | false => exact Hoare.ret fun st hst => ⟨g, .notDeleted, hst⟩
  | search text => exact hoare_searchList hsite hproper hfits

end Scripts

/-! ## Runs -/

/-- What users do, one step after another, with what they get to see. -/
def Site.performAll (site : Site Db) (st : SiteState Db) (actions : List Action) :
    Except Abort (List (Action × Screen)) × SiteState Db :=
  Lib.performAll (fun st action => (action.script site.browser).run site.exec st) st actions

/-- How many requests are sent. -/
def requestCount (b : Browser) (actions : List Action) : Nat :=
  (actions.map fun action => (action.requests b).length).sum

section Runs

variable {site : Site Db} {IsChar : Bytes → Prop} (hsite : site.Proper IsChar)
  {actions : List Action} (hvalid : ∀ action ∈ actions, action.Valid site)

include hsite hvalid

/-- The steps keep the gallery. -/
theorem performAll_backs {n : Nat} {st : SiteState Db} {g : Gallery}
    (hst : site.Backs (n + requestCount site.browser actions) st g) :
    ∃ log st' g', site.performAll st actions = (.ok log, st') ∧ log.map Prod.fst = actions ∧
      Runs (Gallery.Step IsChar) g log g' ∧ site.Backs n st' g' := by
  refine Refines.performAll (R := site.Backs) ?_ hvalid hst
  exact refines_iff_hoare.mpr fun n g action h => hoare_script hsite h

end Runs

/-- A meme is created, a caption is searched for, the meme is looked at, and deleted. -/
def someSteps : List Action :=
  [.post ⟨"grumpy.jpg", "no", "just no"⟩, .search "just n",
    .follow (.view "00000000-0000-4000-8000-000000000000"),
    .submit "00000000-0000-4000-8000-000000000000" true true ⟨"grumpy.jpg", "no", "just no"⟩,
    .follow .list]

end GittyUp
