import GittyUp.Lib.Hoare
import GittyUp.Web.Screens
import GittyUp.Web.Site

/-!
# What the requests of the pages do

A site backs a gallery if its table stores the memes (`Site.Backs`). Every request
that the pages send is answered from the gallery and changes it by one command, and
takes one of the requests that the counters of views have room for.
-/

namespace GittyUp

open Lib

variable {Db : Type}

/-! ## The gallery of a site -/

/-- The table stores the memes, the ids are those that were drawn, and `n` more
requests can be counted. -/
structure Site.Backs (site : Site Db) (n : Nat) (st : SiteState Db) (g : Gallery) : Prop where
  table : ∃ records, Holds site.sqlite st.db records ∧ Stores records g.memes
  sane : g.memes.Sane st.served
  ids : ∀ id meme, g.memes id = some meme → id ∈ g.ids
  drawn : ∀ id ∈ g.ids, ∃ k < st.served, site.uuid k = id
  budget : st.served + n < 2 ^ 31 - 1

/-- Only an id that is drawn is new. -/
theorem MemeMap.some_of_apply {m : MemeMap} {c : MemeCommand} {id : Bytes} {meme : Meme}
    (h : m.apply c id = some meme) : c.drawn = some id ∨ ∃ old, m id = some old := by
  have keep : ∀ {id' : Bytes} {value : Option Meme},
      (∀ old, value = some old → ∃ o, m id' = some o) →
        Function.update m id' value id = some meme → ∃ old, m id = some old := by
    intro id' value hvalue h
    rw [Function.update_apply] at h
    split_ifs at h with hid
    · exact hid ▸ hvalue meme h
    · exact ⟨meme, h⟩
  have hmap : ∀ {id' : Bytes} {f : Meme → Meme}, ∀ old, (m id').map f = some old →
      ∃ o, m id' = some o := by
    intro id' f old hold
    obtain ⟨o, ho, -⟩ := Option.map_eq_some_iff.mp hold
    exact ⟨o, ho⟩
  cases c with
  | add id' texts =>
    by_cases hid : id = id'
    · exact .inl (congrArg some hid.symm)
    · exact .inr ⟨meme, (Function.update_of_ne hid _ _).symm.trans h⟩
  | replace id' texts => exact .inr (keep hmap h)
  | remove id' => exact .inr (keep (fun _ hold => by contradiction) h)
  | view id' => exact .inr (keep hmap h)
  | other => exact .inr ⟨meme, h⟩

theorem drawn_command {uuid : Bytes} {req : Request} {id : Bytes}
    (h : (command uuid req).drawn = some id) : id = uuid := by
  have hcases := command_cases uuid req
  generalize command uuid req = asked at hcases h
  cases hcases with
  | add => exact (Option.some.inj h).symm
  | _ => contradiction

/-- The request is answered with the response, and changes the table by the command. -/
structure Site.Served (site : Site Db) (st : SiteState Db) (g : Gallery) (req : Request)
    (response : Response) (c : MemeCommand) : Prop where
  run : ∃ db, (GittyUp.handleRequest (site.uuid st.served) req).run site.sqlite.exec st.db =
      (.ok response, db) ∧
    ∃ records, Holds site.sqlite db records ∧ Stores records (g.memes.apply c)
  ready : c.Ready g.memes
  drawn : ∀ id, c.drawn = some id → id = site.uuid st.served

section Backs

variable {site : Site Db} {n : Nat} {st : SiteState Db} {g : Gallery}

namespace Site.Backs

/-- The gallery of a new site. -/
theorem empty {db : Db} (h : site.sqlite.rows db = 0) (hn : n < 2 ^ 31 - 1) :
    site.Backs n ⟨db, 0⟩ Gallery.empty := by
  refine ⟨⟨0, h, .empty⟩, ?_, ?_, ?_, ?_⟩
  · intro id meme hsome
    contradiction
  · intro id meme hsome
    contradiction
  · exact fun id hid => absurd hid List.not_mem_nil
  · rwa [Nat.zero_add]

variable {IsChar : Bytes → Prop} (hsite : site.Proper IsChar) (h : site.Backs (n + 1) st g)

include h in
/-- **A request keeps the gallery.** -/
theorem after {req : Request} {response : Response} {c : MemeCommand}
    (hserved : site.Served st g req response c) {db : Db}
    (hrun : (GittyUp.handleRequest (site.uuid st.served) req).run site.sqlite.exec st.db =
      (.ok response, db)) : site.Backs n ⟨db, st.served + 1⟩ (g.after c) := by
  obtain ⟨db', hrun', htable⟩ := hserved.run
  obtain ⟨-, rfl⟩ := Prod.mk.inj (hrun.symm.trans hrun')
  have hids : ∀ {id : Bytes}, id ∈ (g.after c).ids ↔ c.drawn = some id ∨ id ∈ g.ids := by
    intro id
    show id ∈ c.drawn.toList ++ g.ids ↔ _
    rw [List.mem_append, Option.mem_toList]
  refine ⟨htable, h.sane.apply hserved.ready, fun id meme hsome => hids.mpr ?_, ?_, ?_⟩
  · rcases MemeMap.some_of_apply hsome with hdrawn | ⟨old, hold⟩
    · exact .inl hdrawn
    · exact .inr (h.ids id old hold)
  · intro id hid
    rcases hids.mp hid with hdrawn | hid
    · exact ⟨st.served, Nat.lt_succ_self _, (hserved.drawn id hdrawn).symm⟩
    · obtain ⟨k, hk, hkid⟩ := h.drawn id hid
      exact ⟨k, Nat.lt_succ_of_lt hk, hkid⟩
  · have hbudget := h.budget
    dsimp only
    omega

/-- The memes can be listed. -/
theorem listable {keep : Meme → Prop} {listed : List (Bytes × Meme)} (hsite : site.Proper IsChar)
    (h : site.Backs n st g) (hlisted : Lists g.memes keep listed) : Listable listed := by
  intro p hp
  obtain ⟨hsome, -⟩ := (hlisted.mem p.1 p.2).mp hp
  obtain ⟨-, htexts, hviews⟩ := h.sane _ _ hsome
  obtain ⟨k, -, hk⟩ := h.drawn _ (h.ids _ _ hsome)
  have hbudget := h.budget
  exact ⟨hk ▸ hsite.uuids k, htexts, by omega⟩

include hsite h

/-- The UUID that is drawn is new. -/
theorem fresh : site.uuid st.served ∉ g.ids := by
  intro hid
  obtain ⟨k, hk, hkid⟩ := h.drawn _ hid
  have hbudget := h.budget
  have hserved : st.served < 2 ^ 31 - 1 := by omega
  exact absurd (hsite.fresh (hk.trans hserved) hserved hkid) (Nat.ne_of_lt hk)

/-! ### The kinds of requests -/

theorem served_command {req : Request} (huri : NulFree req.uri) {c : MemeCommand}
    (hc : command (site.uuid st.served) req = c) {response : Response}
    (hanswer : g.memes.answer c = some response) : site.Served st g req response c := by
  subst hc
  obtain ⟨records, hholds, hstores⟩ := h.table
  have hfresh := h.fresh hsite
  have hready : (command (site.uuid st.served) req).Ready g.memes := by
    refine Arrival.ready (r := ⟨site.uuid st.served, req⟩) (hsite.uuids _).nulFree huri
      fun id hid => ?_
    obtain rfl : id = site.uuid st.served := drawn_command hid
    rw [Option.eq_none_iff_forall_ne_some]
    exact fun meme hsome => hfresh (h.ids _ _ hsome)
  have hbound : st.served + 1 < 2 ^ 31 := by
    have hbudget := h.budget
    omega
  obtain ⟨hanswers, htable⟩ :=
    run_handleRequest hsite.standard hsite.reliable hholds hstores h.sane hbound hready
  exact ⟨⟨_, Prod.ext (hanswers response hanswer) rfl, htable⟩, hready, fun id => drawn_command⟩

omit hsite in
/-- A request that needs no statement. -/
theorem served_ret {req : Request} {response : Response}
    (hret : GittyUp.handleRequest (site.uuid st.served) req = .ret response) :
    site.Served st g req response .other := by
  refine ⟨⟨st.db, ?_, h.table⟩, trivial, fun id hid => by contradiction⟩
  rw [hret]
  rfl

/-- A request that lists memes. -/
theorem served_list {req : Request}
    (hlist : GittyUp.handleRequest (site.uuid st.served) req = memeList) :
    ∃ listed, Lists g.memes (fun _ => True) listed ∧
      site.Served st g req (typedResponse 200 (memesBody listed) "application/json") .other := by
  obtain ⟨records, hholds, hstores⟩ := h.table
  have hbound : st.served < 2 ^ 31 := by
    have hbudget := h.budget
    omega
  obtain ⟨listed, db', hrun, hlisted, hholds'⟩ :=
    run_memeList hsite.standard hsite.reliable hholds hstores h.sane hbound
  refine ⟨listed, hlisted, ⟨db', ?_, records, hholds', hstores⟩, trivial,
    fun id hid => by contradiction⟩
  rw [hlist, hrun]

/-- A request that searches for memes. -/
theorem served_search {req : Request} {query text : Bytes}
    (hsearch : GittyUp.handleRequest (site.uuid st.served) req = memeSearch query)
    (hdecode : uriDecode query = .ok text) (htext : NulFree text) :
    ∃ listed, Lists g.memes (Matches IsChar text) listed ∧
      site.Served st g req (typedResponse 200 (memesBody listed) "application/json") .other := by
  obtain ⟨records, hholds, hstores⟩ := h.table
  have hbound : st.served < 2 ^ 31 := by
    have hbudget := h.budget
    omega
  obtain ⟨listed, db', hrun, hlisted, hholds'⟩ := run_memeSearch hsite.standard hsite.reliable
    hholds hstores h.sane hbound hsite.searches hdecode htext
  refine ⟨listed, hlisted, ⟨db', ?_, records, hholds', hstores⟩, trivial,
    fun id hid => by contradiction⟩
  rw [hsearch, hrun]

end Site.Backs

end Backs

/-! ## What the pages get -/

/-- A request of a page that fits the buffer of the session. -/
structure Site.Sends (site : Site Db) (settings : AjaxSettings) : Prop where
  proper : settings.Proper
  memes : lit "/memes" <+: settings.url
  fits : site.Fits settings

/-- What is sent, by its parts. -/
structure AjaxSettings.IsFor (settings : AjaxSettings) (req : Request) : Prop where
  method : req.method = settings.type
  uri : req.uri = settings.url
  body : req.requestBody = settings.data.getD []

section Requests

variable {site : Site Db} {IsChar : Bytes → Prop} (hsite : site.Proper IsChar) {n : Nat}
  {g : Gallery} {settings : AjaxSettings} (hsends : site.Sends settings)

include hsite hsends

/-- **A request**: what is returned to it is what the script gets. -/
theorem hoare_fetch (post : Response → MemeCommand → Prop)
    (hserved : ∀ st req, site.Backs (n + 1) st g → settings.IsFor req →
      ∃ response c, site.Served st g req response c ∧ post response c) :
    Hoare site.exec (fun st => site.Backs (n + 1) st g) (fetch settings) fun text st =>
      ∃ response c, IsTextOf response text ∧ post response c ∧ site.Backs n st (g.after c) := by
  intro st hst
  obtain ⟨req, hmethod, huri, hbody, hexec⟩ :=
    hsite.exec_eq hsends.proper hsends.memes hsends.fits st
  obtain ⟨response, c, hresponse, hpost⟩ := hserved st req hst ⟨hmethod, huri, hbody⟩
  obtain ⟨db, hrun, -⟩ := hresponse.run
  obtain ⟨text, htext, hof⟩ := hexec response db hrun
  refine ⟨text, ⟨db, st.served + 1⟩, ?_, response, c, hof, hpost, hst.after hresponse hrun⟩
  simp only [fetch, Prog.run, htext]

/-- A call of `$.ajax`: the callback gets what is made of the response. -/
theorem hoare_ajax (post : Option Json → MemeCommand → Prop)
    (hserved : ∀ st req, site.Backs (n + 1) st g → settings.IsFor req →
      ∃ response c, site.Served st g req response c ∧
        ∀ text, IsTextOf response text → post (site.browser.callback text) c) :
    Hoare site.exec (fun st => site.Backs (n + 1) st g) (ajax site.browser settings)
      fun data st => ∃ c, post data c ∧ site.Backs n st (g.after c) := by
  refine (hoare_fetch hsite hsends _ hserved).bind fun text => Hoare.ret ?_
  rintro st ⟨response, c, hof, hpost, hst⟩
  exact ⟨c, hpost text hof, hst⟩

end Requests

/-! ### The requests -/

theorem isSegment_word {w : Bytes} (h : ∀ c ∈ w, IsUnescaped c)
    (hdots : w ≠ lit "." ∧ w ≠ lit "..") : IsSegment w :=
  Encodes.isSegment (.plain h) hdots

/-- A URL below `/memes`. -/
theorem Site.sends_memes {site : Site Db} {url type : Bytes} {data : Option Bytes}
    (htype : type ∈ [lit "GET", lit "POST", lit "PUT", lit "DELETE"])
    {segments : List Bytes} (hsegments : ∀ s ∈ segments, IsSegment s)
    (hurl : url = lit "/memes" ++ segments.flatMap (lit "/" ++ ·))
    (hdata : ∀ data', data = some data' →
      ∀ c ∈ data', IsUnescaped c ∨ c = '%' ∨ c = '+' ∨ c = '&' ∨ c = '=')
    (hfits : site.Fits ⟨url, type, data⟩) : site.Sends ⟨url, type, data⟩ := by
  have hmemes : IsSegment (lit "memes") := isSegment_word (by decide) (by decide)
  refine ⟨⟨htype, ⟨lit "memes" :: segments, List.cons_ne_nil _ _, ?_, hurl⟩, hdata⟩,
    ⟨_, hurl.symm⟩, hfits⟩
  exact List.forall_mem_cons.mpr ⟨hmemes, hsegments⟩

section Memes

variable {site : Site Db} {IsChar : Bytes → Prop} (hsite : site.Proper IsChar) {n : Nat}
  {g : Gallery} {id : Bytes} (hid : IsUuid id)

include hid in
theorem checkUri_meme : checkUri (lit "/memes/" ++ id) = id := checkUri_memes hid.oneLine

include hid in
/-- A request for one meme. -/
theorem Site.sends_meme {type : Bytes} {data : Option Bytes}
    (htype : type ∈ [lit "GET", lit "POST", lit "PUT", lit "DELETE"])
    (hdata : ∀ data', data = some data' →
      ∀ c ∈ data', IsUnescaped c ∨ c = '%' ∨ c = '+' ∨ c = '&' ∨ c = '=')
    (hfits : site.Fits ⟨lit "/memes/" ++ id, type, data⟩) :
    site.Sends ⟨lit "/memes/" ++ id, type, data⟩ := by
  refine Site.sends_memes htype (List.forall_mem_singleton.mpr hid.isSegment) ?_ hdata hfits
  simp [lit]

include hid in
theorem nulFree_meme : NulFree (lit "/memes/" ++ id) := by
  intro h0
  rcases List.mem_append.mp h0 with h0 | h0
  · exact absurd h0 (by decide)
  · exact hid.nulFree h0

include hsite hid

/-- **A GET of a meme** counts a view. -/
theorem hoare_meme (hfits : site.Fits ⟨lit "/memes/" ++ id, "GET", none⟩) :
    Hoare site.exec (fun st => site.Backs (n + 1) st g)
      (ajax site.browser ⟨lit "/memes/" ++ id, "GET", none⟩) fun data st =>
        ∃ c, (data = (g.memes id).map (fun meme => memeJson meme.texts.memeTemplate
          meme.texts.topCaption meme.texts.bottomCaption) ∧ c = .view id) ∧
            site.Backs n st (g.after c) := by
  refine hoare_ajax hsite (Site.sends_meme hid (by decide) (by simp) hfits) _ fun st req hst hreq => ?_
  have hcommand : command (site.uuid st.served) req = .view id := by
    unfold command
    rw [hreq.method, hreq.uri]
    dsimp only
    rw [checkUri_meme hid, getTarget_uuid hid]
    rfl
  have huri : NulFree req.uri := hreq.uri ▸ nulFree_meme hid
  cases hmeme : g.memes id with
  | none =>
    have hanswer : g.memes.answer (.view id) =
        some (typedResponse 404 "The requested file could not be found!\n" "text/plain") := by
      rw [MemeMap.answer, hmeme]
    refine ⟨_, _, hst.served_command hsite huri hcommand hanswer, fun text hof => ⟨?_, rfl⟩⟩
    exact hsite.browser.callback_error hof (show 400 ≤ 404 by decide)
  | some meme =>
    have hanswer : g.memes.answer (.view id) =
        some (typedResponse 200 (memeBody meme.texts) "application/json") := by
      rw [MemeMap.answer, hmeme]
    refine ⟨_, _, hst.served_command hsite huri hcommand hanswer, fun text hof => ⟨?_, rfl⟩⟩
    exact hsite.browser.callback_success hof (by decide)
      (parse_memeBody (hst.sane _ _ hmeme).2.1)

/-- **A DELETE** of a meme succeeds, also if the meme is gone. -/
theorem hoare_delete (hfits : site.Fits ⟨lit "/memes/" ++ id, "DELETE", none⟩) :
    Hoare site.exec (fun st => site.Backs (n + 1) st g)
      (ajax site.browser ⟨lit "/memes/" ++ id, "DELETE", none⟩) fun data st =>
        ∃ c, (data = some (idJson id) ∧ c = .remove id) ∧ site.Backs n st (g.after c) := by
  refine hoare_ajax hsite (Site.sends_meme hid (by decide) (by simp) hfits) _ fun st req hst hreq => ?_
  have hcommand : command (site.uuid st.served) req = .remove id := by
    unfold command
    rw [hreq.method, hreq.uri]
    dsimp only
    rw [checkUri_meme hid, hid.checkId]
    rfl
  have huri : NulFree req.uri := hreq.uri ▸ nulFree_meme hid
  refine ⟨_, _, hst.served_command hsite huri hcommand rfl, fun text hof => ⟨?_, rfl⟩⟩
  exact hsite.browser.callback_success hof (by decide) (parse_idBody hid)

end Memes

section Forms

variable {site : Site Db} {IsChar : Bytes → Prop} (hsite : site.Proper IsChar) {n : Nat}
  {g : Gallery} (form : MemeTexts)

include hsite

/-- **A POST of a form** stores a new meme, if the form is accepted. -/
theorem hoare_post
    (hfits : site.Fits ⟨"/memes/", "POST", some (site.browser.serialize form.fields)⟩) :
    Hoare site.exec (fun st => site.Backs (n + 1) st g)
      (ajax site.browser ⟨"/memes/", "POST", some (site.browser.serialize form.fields)⟩)
        fun data st => ∃ c, ((data = none ∧ (∀ texts, ¬ Accepts form texts) ∧ c = .other) ∨
          ∃ id texts, data = some (idJson id) ∧ Accepts form texts ∧ id ∉ g.ids ∧
            c = .add id texts) ∧ site.Backs n st (g.after c) := by
  have hsends : site.Sends ⟨"/memes/", "POST", some (site.browser.serialize form.fields)⟩ := by
    have hempty : IsSegment [] := isSegment_word (by simp) (by decide)
    refine Site.sends_memes (by decide) (List.forall_mem_singleton.mpr hempty) rfl ?_ hfits
    rintro _ ⟨⟩
    exact bytes_encode hsite.browser.serialize form
  obtain ⟨accepted, hbody, haccepted⟩ := bodyCheck_encode hsite.browser.serialize form
  refine hoare_ajax hsite hsends _ fun st req hst hreq => ?_
  have hreqBody : bodyCheck req.requestBody = .ok accepted := hreq.body ▸ hbody
  cases accepted with
  | none =>
    have hret : GittyUp.handleRequest (site.uuid st.served) req = .ret (typedResponse 400
        "The provided meme creation request is invalid!\n" "text/plain") := by
      unfold GittyUp.handleRequest createMeme
      rw [hreq.method, hreqBody]
      rfl
    refine ⟨_, _, hst.served_ret hret, fun text hof => .inl ⟨?_, fun texts hacc => ?_, rfl⟩⟩
    · exact hsite.browser.callback_error hof (show 400 ≤ 400 by decide)
    · exact absurd ((haccepted texts).mpr hacc) (by simp)
  | some texts =>
    have hcommand : command (site.uuid st.served) req = .add (site.uuid st.served) texts := by
      unfold command acceptedTexts
      rw [hreq.method, hreqBody]
      rfl
    have huri : NulFree req.uri := hreq.uri ▸ (show NulFree (lit "/memes/") by decide)
    refine ⟨_, _, hst.served_command hsite huri hcommand rfl, fun text hof =>
      .inr ⟨_, texts, ?_, (haccepted texts).mp rfl, hst.fresh hsite, rfl⟩⟩
    exact hsite.browser.callback_success hof (by decide) (parse_idBody (hsite.uuids _))

/-- **A PUT of a form** succeeds if the form is accepted, also if the meme is gone. -/
theorem hoare_put {id : Bytes} (hid : IsUuid id)
    (hfits : site.Fits
      ⟨lit "/memes/" ++ id, "PUT", some (site.browser.serialize form.fields)⟩) :
    Hoare site.exec (fun st => site.Backs (n + 1) st g)
      (ajax site.browser
        ⟨lit "/memes/" ++ id, "PUT", some (site.browser.serialize form.fields)⟩)
        fun data st => ∃ c, ((data = none ∧ (∀ texts, ¬ Accepts form texts) ∧ c = .other) ∨
          ∃ texts, data = some (idJson id) ∧ Accepts form texts ∧ c = .replace id texts) ∧
            site.Backs n st (g.after c) := by
  have hsends : site.Sends
      ⟨lit "/memes/" ++ id, "PUT", some (site.browser.serialize form.fields)⟩ := by
    refine Site.sends_meme hid (by decide) ?_ hfits
    rintro _ ⟨⟩
    exact bytes_encode hsite.browser.serialize form
  obtain ⟨accepted, hbody, haccepted⟩ := bodyCheck_encode hsite.browser.serialize form
  refine hoare_ajax hsite hsends _ fun st req hst hreq => ?_
  have hreqBody : bodyCheck req.requestBody = .ok accepted := hreq.body ▸ hbody
  cases accepted with
  | none =>
    have hret : GittyUp.handleRequest (site.uuid st.served) req = .ret (typedResponse 400
        "The provided meme update request is invalid!\n" "text/plain") := by
      unfold GittyUp.handleRequest updateMeme
      rw [hreq.method, hreqBody, hreq.uri]
      dsimp only
      rw [checkUri_meme hid, hid.checkId]
      rfl
    refine ⟨_, _, hst.served_ret hret, fun text hof => .inl ⟨?_, fun texts hacc => ?_, rfl⟩⟩
    · exact hsite.browser.callback_error hof (show 400 ≤ 400 by decide)
    · exact absurd ((haccepted texts).mpr hacc) (by simp)
  | some texts =>
    have hcommand : command (site.uuid st.served) req = .replace id texts := by
      unfold command acceptedTexts
      rw [hreq.method, hreqBody, hreq.uri]
      dsimp only
      rw [checkUri_meme hid, hid.checkId]
      rfl
    have huri : NulFree req.uri := hreq.uri ▸ nulFree_meme hid
    refine ⟨_, _, hst.served_command hsite huri hcommand rfl, fun text hof =>
      .inr ⟨texts, ?_, (haccepted texts).mp rfl, rfl⟩⟩
    exact hsite.browser.callback_success hof (by decide) (parse_idBody hid)

end Forms

section Lists

variable {site : Site Db} {IsChar : Bytes → Prop} (hsite : site.Proper IsChar) {n : Nat}
  {g : Gallery}

include hsite

/-- **A GET of the list** shows all memes. -/
theorem hoare_list (hfits : site.Fits ⟨"/memes", "GET", none⟩) :
    Hoare site.exec (fun st => site.Backs (n + 1) st g)
      (ajax site.browser ⟨"/memes", "GET", none⟩) fun data st => ∃ c, ((∃ listed, Listable listed ∧
        Lists g.memes (fun _ => True) listed ∧ data = some (memesJson listed)) ∧ c = .other) ∧
          site.Backs n st (g.after c) := by
  have hsends : site.Sends ⟨"/memes", "GET", none⟩ :=
    Site.sends_memes (by decide) (List.forall_mem_nil _) rfl (by simp) hfits
  refine hoare_ajax hsite hsends _ fun st req hst hreq => ?_
  have hlist : GittyUp.handleRequest (site.uuid st.served) req = memeList := by
    unfold GittyUp.handleRequest
    rw [hreq.method, hreq.uri]
    dsimp only
    rw [show getTarget (checkUri "/memes") = .list by decide +kernel]
    rfl
  obtain ⟨listed, hlisted, hserved⟩ := hst.served_list hsite hlist
  have hlistable := hst.listable hsite hlisted
  refine ⟨_, _, hserved, fun text hof => ⟨⟨listed, hlistable, hlisted, ?_⟩, rfl⟩⟩
  exact hsite.browser.callback_success hof (by decide) (parse_memesBody hlistable)

/-- **A GET of a search** shows the memes that match. -/
theorem hoare_search {text sent : Bytes} (htext : NulFree text)
    (hdots : text ≠ lit "." ∧ text ≠ lit "..") (hsent : Encodes IsUnescaped text sent)
    (hne : sent ≠ []) (hfits : site.Fits ⟨lit "/memes/search/" ++ sent, "GET", none⟩) :
    Hoare site.exec (fun st => site.Backs (n + 1) st g)
      (ajax site.browser ⟨lit "/memes/search/" ++ sent, "GET", none⟩)
        fun data st => ∃ c, ((∃ listed, Listable listed ∧
          Lists g.memes (Matches IsChar text) listed ∧ data = some (memesJson listed)) ∧
            c = .other) ∧ site.Backs n st (g.after c) := by
  have hword : IsSegment (lit "search") := isSegment_word (by decide) (by decide)
  have hsends : site.Sends ⟨lit "/memes/search/" ++ sent, "GET", none⟩ := by
    refine Site.sends_memes (by decide) (List.forall_mem_cons.mpr
      ⟨hword, List.forall_mem_singleton.mpr (hsent.isSegment hdots)⟩) ?_ (by simp) hfits
    simp [lit]
  refine hoare_ajax hsite hsends _ fun st req hst hreq => ?_
  have hcheck : checkUri (lit "/memes/search/" ++ sent) = lit "search/" ++ sent := by
    refine checkUri_memes (s := lit "search/" ++ sent) fun c hc => ?_
    rcases List.mem_append.mp hc with hc | hc
    · exact (show OneLine (lit "search/") by decide) c hc
    · rcases hsent.bytes c hc with hc | rfl | rfl
      · exact hc.plain.2.2.2.2.2.2
      all_goals decide
  have hsearch : GittyUp.handleRequest (site.uuid st.served) req = memeSearch sent := by
    unfold GittyUp.handleRequest
    rw [hreq.method, hreq.uri]
    dsimp only
    rw [hcheck, getTarget_search hne]
    rfl
  obtain ⟨listed, hlisted, hserved⟩ := hst.served_search hsite hsearch hsent.decode htext
  have hlistable := hst.listable hsite hlisted
  refine ⟨_, _, hserved, fun text hof => ⟨⟨listed, hlistable, hlisted, ?_⟩, rfl⟩⟩
  exact hsite.browser.callback_success hof (by decide) (parse_memesBody hlistable)

/-- **A link** leads to its page. -/
theorem hoare_link {link : Link} (hlink : link.Proper)
    (hfits : site.Fits ⟨link.href, "GET", none⟩) :
    Hoare site.exec (fun st => site.Backs (n + 1) st g) (fetch ⟨link.href, "GET", none⟩)
      fun text st => site.browser.redirect text = some link.page ∧ site.Backs n st g := by
  obtain ⟨location, htarget, hlocation⟩ := Link.getTarget_href hlink
  have hword : ∀ w ∈ [lit "create", lit "view", lit "manage"], IsSegment w := by
    intro w hw
    simp only [List.mem_cons, List.not_mem_nil, or_false] at hw
    rcases hw with rfl | rfl | rfl <;> exact isSegment_word (by decide) (by decide)
  have hsegments : ∃ segments : List Bytes, (∀ s ∈ segments, IsSegment s) ∧
      link.href = lit "/memes" ++ segments.flatMap (lit "/" ++ ·) := by
    cases link with
    | create => exact ⟨[lit "create"], by simpa using hword _ (by simp), rfl⟩
    | list => exact ⟨[lit "view"], by simpa using hword _ (by simp), rfl⟩
    | view id =>
      have hid : IsSegment id := IsUuid.isSegment hlink
      exact ⟨[lit "view", id], by simpa using ⟨hword _ (by simp), hid⟩, by simp [Link.href, lit]⟩
    | manage id =>
      have hid : IsSegment id := IsUuid.isSegment hlink
      exact ⟨[lit "manage", id], by simpa using ⟨hword _ (by simp), hid⟩, by simp [Link.href, lit]⟩
  obtain ⟨segments, hsegments, hurl⟩ := hsegments
  have hsends := Site.sends_memes (by decide) hsegments hurl (by simp) hfits
  refine (hoare_fetch hsite hsends (fun response c => response = redirectRequest location ∧
    c = .other) fun st req hst hreq => ?_).mono (fun _ hst => hst) ?_
  · have hret : GittyUp.handleRequest (site.uuid st.served) req =
        .ret (redirectRequest location) := by
      unfold GittyUp.handleRequest
      rw [hreq.method, hreq.uri]
      dsimp only
      rw [htarget]
      rfl
    exact ⟨_, _, hst.served_ret hret, rfl, rfl⟩
  · rintro text st ⟨_, _, hof, ⟨rfl, rfl⟩, hst⟩
    exact ⟨hsite.browser.redirect_eq hof hlocation, hst⟩

end Lists

end GittyUp
