import GittyUp.Lib.Atomic
import GittyUp.Web.Refinement

/-!
# Many users at once

The scripts of any number of users run at once, their requests in any order, each
served as one step of the site (`Meme/Linearization` takes the statements of a request
apart). What each user gets to see is what the gallery says, in the order of the last
requests of their steps: `gallery_linearizable`. A redirection that comes first sees
nothing of the gallery.
-/

namespace GittyUp

open Lib

variable {Db : Type}

/-! ## One step among others -/

theorem ajax_bind {α : Type} (b : Browser) (settings : AjaxSettings)
    (f : Option Json → PageProg α) :
    ajax b settings >>= f = fetch settings >>= fun text => f (b.callback text) := by
  refine congrArg (Prog.call settings) (funext fun reply => ?_)
  cases reply <;> rfl

/-- The request behind `fetch`. -/
theorem exec_of_fetch {S : Type} {exec : S → AjaxSettings → Except Abort Bytes × S} {s s' : S}
    {settings : AjaxSettings} {text : Bytes}
    (h : (fetch settings).run exec s = (.ok text, s')) : exec s settings = (.ok text, s') := by
  unfold fetch Prog.run at h
  cases hreply : (exec s settings).1 with
  | ok text' =>
    rw [hreply] at h
    obtain ⟨hok, hstate⟩ := Prod.mk.inj h
    exact Prod.ext (hreply.trans hok) hstate
  | error e =>
    rw [hreply] at h
    cases h

/-- The views can still be counted. -/
def SiteState.Within (st : SiteState Db) : Prop := st.served < 2 ^ 31 - 1

/-- Every request counts, whatever becomes of it. -/
theorem Site.served_exec (site : Site Db) (st : SiteState Db) (settings : AjaxSettings) :
    (site.exec st settings).2.served = st.served + 1 := by
  unfold Site.exec Site.handleSuccess
  dsimp only
  split
  · split <;> rfl
  · rfl

section Steps

variable {site : Site Db} {IsChar : Bytes → Prop} (hsite : site.Proper IsChar)

/-- The step takes effect at its last request. -/
abbrev Site.Effects (site : Site Db) (IsChar : Bytes → Prop) (action : Action)
    (script : PageProg Screen) : Prop :=
  TakesEffect site.exec SiteState.Within (fun g st => site.Backs 0 st g)
    (fun g screen g' => Gallery.Step IsChar g action screen g') script

/-- A site that has room for a request. -/
theorem Site.Backs.room {st : SiteState Db} {g : Gallery} (h : site.Backs 0 st g)
    {settings : AjaxSettings} (hwithin : (site.exec st settings).2.Within) :
    site.Backs 1 st g := by
  unfold SiteState.Within at hwithin
  rw [site.served_exec] at hwithin
  exact ⟨h.table, h.sane, h.ids, h.drawn, hwithin⟩

/-- A script with one request. -/
theorem effects_fetch {action : Action} {settings : AjaxSettings} {f : Bytes → PageProg Screen}
    (hlast : ∀ text, ∃ screen, f text = .ret screen)
    (h : ∀ g, Hoare site.exec (fun st => site.Backs 1 st g) (fetch settings >>= f)
      fun screen st => ∃ g', Gallery.Step IsChar g action screen g' ∧ site.Backs 0 st g') :
    site.Effects IsChar action (fetch settings >>= f) := by
  refine takesEffect_of_hoare (fun reply => ?_) fun g => ?_
  · cases reply with
    | ok text => exact .inl (hlast text)
    | error e => exact .inr ⟨e, rfl⟩
  · exact (h g).mono (fun st hst => hst.1.room hst.2) fun screen st hst => hst

/-- A script with one call of `$.ajax`. -/
theorem effects_ajax {action : Action} {script : PageProg Screen} {settings : AjaxSettings}
    {f : Option Json → PageProg Screen} (hscript : script = ajax site.browser settings >>= f)
    (hlast : ∀ data, ∃ screen, f data = .ret screen)
    (h : ∀ g, Hoare site.exec (fun st => site.Backs 1 st g) script
      fun screen st => ∃ g', Gallery.Step IsChar g action screen g' ∧ site.Backs 0 st g') :
    site.Effects IsChar action script := by
  rw [hscript, ajax_bind] at h ⊢
  exact effects_fetch (fun text => hlast _) h

/-- The list is shown when it has been loaded. -/
theorem getMemeList_eq (b : Browser) (uri : Bytes) (search : Option Bytes) :
    ∃ f : Option Json → PageProg Screen, (∀ data, ∃ screen, f data = .ret screen) ∧
      getMemeList b uri search = ajax b ⟨uri, "GET", none⟩ >>= f := by
  refine ⟨_, fun data => ?_, rfl⟩
  cases data with
  | none => exact ⟨_, rfl⟩
  | some memeList =>
    dsimp only
    cases listEntries memeList <;> exact ⟨_, rfl⟩

include hsite

/-- The page of a link takes effect when it has been loaded. -/
theorem effects_openPage {link : Link} (hlink : link.Proper) (hne : link ≠ .create)
    (hfits : ∀ settings ∈ link.loads, site.Fits settings) :
    site.Effects IsChar (.follow link) (openPage site.browser link.page) := by
  have hpage := fun g => hoare_openPage hsite (n := 0) (g := g) hlink hfits
  cases link with
  | create => exact absurd rfl hne
  | list =>
    obtain ⟨f, hlast, hlist⟩ := getMemeList_eq site.browser "/memes" none
    exact effects_ajax ((openPage_list _).trans hlist) hlast hpage
  | view id =>
    exact effects_ajax (openPage_view _ id) (fun data => by cases data <;> exact ⟨_, rfl⟩) hpage
  | manage id =>
    exact effects_ajax (openPage_manage _ id) (fun data => by cases data <;> exact ⟨_, rfl⟩) hpage

/-- **A link**: the redirection sees nothing of the gallery. -/
theorem effects_followLink {link : Link} (hlink : link.Proper)
    (hfits : ∀ settings ∈ (Action.follow link).requests site.browser, site.Fits settings) :
    site.Effects IsChar (.follow link) (followLink site.browser link.href) := by
  obtain ⟨hfirst, hloads⟩ := List.forall_mem_cons.mp hfits
  intro g st hst hwithin
  obtain ⟨text, st', hrun, hredirect, hst'⟩ :=
    hoare_link hsite (n := 0) hlink hfirst st (hst.room hwithin)
  rw [exec_of_fetch hrun]
  dsimp only [Prog.bind]
  rw [hredirect]
  by_cases hcreate : link = .create
  · subst hcreate
    exact .inr ⟨.creator, g, rfl, .creator, hst'⟩
  · exact .inl ⟨hst', effects_openPage hsite hlink hcreate hloads⟩

/-- **Every step takes effect at its last request**, or sends none and sees nothing. -/
theorem effects_script {action : Action} (h : action.Valid site) :
    (∃ screen, action.script site.browser = .ret screen ∧
      ∀ g, Gallery.Step IsChar g action screen g) ∨
        site.Effects IsChar action (action.script site.browser) := by
  have hscript := fun g => hoare_script hsite (n := 0) (g := g) h
  obtain ⟨hproper, hfits⟩ := h
  cases action with
  | follow link => exact .inr (effects_followLink hsite hproper hfits)
  | post form =>
    by_cases hform : requiredCheck form = true
    · have hcount : ((Action.post form).requests site.browser).length = 1 := by
        simp [Action.requests, hform]
      rw [hcount] at hscript
      exact .inr (effects_ajax (if_pos hform) (fun data => by cases data <;> exact ⟨_, rfl⟩)
        hscript)
    · exact .inl ⟨.alert, if_neg hform, fun g => .incomplete (Bool.eq_false_iff.mpr hform)⟩
  | submit id deletes confirmed form =>
    have hsubmit := script_submit hsite hproper deletes confirmed form
    cases deletes with
    | false =>
      by_cases hform : requiredCheck form = true
      · have hcount : ((Action.submit id false confirmed form).requests site.browser).length =
            1 := by
          simp [Action.requests, hform]
        rw [hcount] at hscript
        exact .inr (effects_ajax (hsubmit.trans (if_pos hform))
          (fun data => by cases data <;> exact ⟨_, rfl⟩) hscript)
      · exact .inl ⟨.alert, hsubmit.trans (if_neg hform),
          fun g => .changeIncomplete (Bool.eq_false_iff.mpr hform)⟩
    | true =>
      cases confirmed with
      | true =>
        exact .inr (effects_ajax hsubmit (fun data => by cases data <;> exact ⟨_, rfl⟩) hscript)
      | false => exact .inl ⟨.unchanged, hsubmit, fun g => .notDeleted⟩
  | search text =>
    obtain ⟨hquery, hsent⟩ := formQuery_text hsite.browser text
    have hopen : (Action.search text).script site.browser = _ :=
      (congrArg (fun query => openPage site.browser (lit "/web/memes/list.html?" ++ query))
        hquery).trans (openPage_search _ hsent.bytes)
    have hcount : ((Action.search text).requests site.browser).length = 1 := by
      unfold Action.requests
      dsimp only
      split_ifs <;> rfl
    rw [hcount] at hscript
    by_cases hempty : sentQuery site.browser text = []
    · obtain ⟨f, hlast, hlist⟩ := getMemeList_eq site.browser "/memes" none
      exact .inr (effects_ajax ((hopen.trans (if_pos hempty)).trans hlist) hlast hscript)
    · obtain ⟨f, hlast, hlist⟩ := getMemeList_eq site.browser
        (lit "/memes/search/" ++ sentQuery site.browser text) (some (sentQuery site.browser text))
      exact .inr (effects_ajax ((hopen.trans (if_neg hempty)).trans hlist) hlast hscript)

end Steps

/-! ## All steps -/

section Users

variable {ι : Type} [DecidableEq ι] {site : Site Db} {IsChar : Bytes → Prop}

/-- Users have seen what the gallery shows in the order of the log: each of them once,
and all whose step has ended, but for steps that need no request. -/
structure InOrder (site : Site Db) (IsChar : Bytes → Prop) (action : ι → Action)
    (s : Pool Abort AjaxSettings (Except Abort Bytes) Screen (SiteState Db) ι)
    (log : List (ι × Screen)) : Prop where
  seen : ∃ g, Runs (Gallery.Step IsChar) Gallery.empty (log.map fun e => (action e.1, e.2)) g ∧
    ∃ records, Holds site.sqlite s.shared.db records ∧ Stores records g.memes
  once : (log.map Prod.fst).Nodup
  ended : ∀ i screen, (i, screen) ∈ log → s.threads i = .ret screen
  all : ∀ i screen, s.threads i = .ret screen →
    (i, screen) ∈ log ∨ ∀ g, Gallery.Step IsChar g (action i) screen g
  alive : ∀ i e, s.threads i ≠ .abort e

/-- The scripts of all users, before any request. -/
def browsing (site : Site Db) (db : Db) (action : ι → Action) :
    Pool Abort AjaxSettings (Except Abort Bytes) Screen (SiteState Db) ι :=
  Pool.start ⟨db, 0⟩ fun i => (action i).script site.browser

variable (hsite : site.Proper IsChar) {action : ι → Action}
  (hvalid : ∀ i, (action i).Valid site)

include hsite hvalid in
theorem inOrder_of_linearized
    {s : Pool Abort AjaxSettings (Except Abort Bytes) Screen (SiteState Db) ι}
    {log : List (ι × Screen)} {g : Gallery}
    (h : Linearized site.exec SiteState.Within (fun g st => site.Backs 0 st g)
      (fun i g screen g' => Gallery.Step IsChar g (action i) screen g') Gallery.empty
      (fun i => (action i).script site.browser) s log g) : InOrder site IsChar action s log := by
  refine ⟨⟨g, h.runs.map, h.shared.table⟩, h.once, h.ended, fun i screen hret => ?_,
    fun i e habort => ?_⟩
  · by_cases hi : i ∈ log.map Prod.fst
    · obtain ⟨⟨i', screen'⟩, hmem, rfl⟩ := List.mem_map.mp hi
      have hended := h.ended i' screen' hmem
      rw [hret] at hended
      obtain rfl := Prog.ret.inj hended
      exact .inl hmem
    · rcases h.waiting i hi with ⟨screen', hstart, hret'⟩ | heffect
      · rw [hret] at hret'
        obtain rfl := Prog.ret.inj hret'
        rcases effects_script hsite (hvalid i) with ⟨screen', hscript, hstep⟩ | heffect
        · obtain rfl := Prog.ret.inj (hstart.symm.trans hscript)
          exact .inr hstep
        · change site.Effects IsChar _ _ at heffect
          rw [hstart] at heffect
          exact heffect.elim
      · rw [hret] at heffect
        exact heffect.elim
  · by_cases hi : i ∈ log.map Prod.fst
    · obtain ⟨⟨i', screen'⟩, hmem, rfl⟩ := List.mem_map.mp hi
      have hended := h.ended i' screen' hmem
      rw [habort] at hended
      cases hended
    · rcases h.waiting i hi with ⟨screen', -, hret⟩ | heffect
      · rw [habort] at hret
        cases hret
      · rw [habort] at heffect
        exact heffect.elim

/-- The script has ended with the screen. -/
def PageProg.shows (screen : Screen) : PageProg Screen → Bool
  | .ret screen' => screen' = screen
  | _ => false

theorem PageProg.shows_iff {screen : Screen} {p : PageProg Screen} :
    PageProg.shows screen p ↔ p = .ret screen := by
  cases p with
  | ret screen' => exact decide_eq_true_iff.trans ⟨congrArg Prog.ret, Prog.ret.inj⟩
  | abort e | call q k => exact ⟨fun h => absurd h Bool.false_ne_true, fun h => by cases h⟩

end Users

end GittyUp
