import GittyUp.Meme.Listing
import GittyUp.Web.Requests

/-!
# The gallery that users see

What the pages are for: they show memes and change them. `Gallery.Step` says what a
user gets to see for each thing that can be done in the pages, in terms of the memes
alone. A change of a meme that is gone is reported as a success, as the handler does.
-/

namespace GittyUp

open Lib

/-! ## What users do -/

/-- The links that the pages show. -/
inductive Link where
  | create
  | list
  | view (id : Bytes)
  | manage (id : Bytes)
  deriving DecidableEq

def Link.href : Link → Bytes
  | .create => "/memes/create"
  | .list => "/memes/view"
  | .view id => lit "/memes/view/" ++ id
  | .manage id => lit "/memes/manage/" ++ id

/-- A step of a user, in any of the pages that are open. -/
inductive Action where
  | follow (link : Link)
  /-- The form of `create.html` is submitted. -/
  | post (form : MemeTexts)
  /-- The form of the page that manages the meme is submitted, with the box for deleting
  checked or not, and the question whether to delete answered. -/
  | submit (id : Bytes) (deletes confirmed : Bool) (form : MemeTexts)
  /-- The form above the list is submitted. -/
  | search (text : Bytes)
  deriving DecidableEq

/-- The script that runs. -/
def Action.script (b : Browser) : Action → PageProg Screen
  | .follow link => followLink b link.href
  | .post form => postMemeData b form
  | .submit id deletes confirmed form =>
    let page := ManagePage.opened b (lit "?id=" ++ id)
    (page.toggleDeleteView deletes).sendRequest b confirmed form
  | .search text => openPage b (lit "/web/memes/list.html?" ++ b.formQuery [("q", text)])

/-! ## What users see -/

/-- The memes, and all ids that memes have had. -/
structure Gallery where
  memes : MemeMap
  ids : List Bytes

namespace Gallery

def empty : Gallery := ⟨fun _ => none, []⟩

/-- The effect of a command. -/
def after (g : Gallery) (c : MemeCommand) : Gallery := ⟨g.memes.apply c, c.drawn.toList ++ g.ids⟩

end Gallery

/-- A meme in the list. -/
def itemOf (p : Bytes × Meme) : ListItem :=
  ⟨lit "/memes/view/" ++ p.1, lit "/memes/manage/" ++ p.1,
    lit "/image/memes/" ++ p.2.texts.memeTemplate, lit "Top Text: " ++ p.2.texts.topCaption,
    lit "Bottom Text: " ++ p.2.texts.bottomCaption, lit "Times viewed: " ++ decimal p.2.views⟩

/-- What a user gets to see, and what becomes of the memes. -/
inductive Gallery.Step (IsChar : Bytes → Prop) (g : Gallery) : Action → Screen → Gallery → Prop
  | creator : Step IsChar g (.follow .create) .creator g
  -- every look at a meme counts, the one in the editor too
  | viewed {id : Bytes} {meme : Meme} : g.memes id = some meme →
      Step IsChar g (.follow (.view id))
        (.viewer (lit "/image/memes/" ++ meme.texts.memeTemplate) meme.texts.topCaption
          meme.texts.bottomCaption) (g.after (.view id))
  | notViewed {id : Bytes} : g.memes id = none →
      Step IsChar g (.follow (.view id)) (.error notFoundMsg) g
  | edited {id : Bytes} {meme : Meme} : g.memes id = some meme →
      Step IsChar g (.follow (.manage id))
        (.editor ⟨id, lit "/memes/" ++ id, "PUT"⟩ (selectedOption meme.texts.memeTemplate)
          meme.texts.topCaption meme.texts.bottomCaption) (g.after (.view id))
  | notEdited {id : Bytes} : g.memes id = none →
      Step IsChar g (.follow (.manage id)) (.error notFoundMsg) g
  | listed {listed : List (Bytes × Meme)} : Lists g.memes (fun _ => True) listed →
      Step IsChar g (.follow .list) (.lister (listed.map itemOf) none) g
  | listedAll {listed : List (Bytes × Meme)} : Lists g.memes (fun _ => True) listed →
      Step IsChar g (.search []) (.lister (listed.map itemOf) none) g
  -- the text is shown as it is sent
  | found {text sent : Bytes} {listed : List (Bytes × Meme)} : text ≠ [] →
      Encodes IsUnescaped text sent → Lists g.memes (Matches IsChar text) listed →
      Step IsChar g (.search text)
        (.lister (listed.map itemOf) (some (resultString sent listed.length))) g
  | posted {form texts : MemeTexts} {id : Bytes} : requiredCheck form = true → Accepts form texts →
      id ∉ g.ids →
      Step IsChar g (.post form) (.success createdMsg (Link.view id).href) (g.after (.add id texts))
  | notPosted {form : MemeTexts} : requiredCheck form = true → (∀ texts, ¬ Accepts form texts) →
      Step IsChar g (.post form) (.error createErrorMsg) g
  | incomplete {form : MemeTexts} : requiredCheck form = false →
      Step IsChar g (.post form) .alert g
  | changed {id : Bytes} {confirmed : Bool} {form texts : MemeTexts} :
      requiredCheck form = true → Accepts form texts →
      Step IsChar g (.submit id false confirmed form)
        (.success updatedMsg (Link.view id).href) (g.after (.replace id texts))
  | notChanged {id : Bytes} {confirmed : Bool} {form : MemeTexts} : requiredCheck form = true →
      (∀ texts, ¬ Accepts form texts) →
      Step IsChar g (.submit id false confirmed form) (.error updateErrorMsg) g
  | changeIncomplete {id : Bytes} {confirmed : Bool} {form : MemeTexts} :
      requiredCheck form = false → Step IsChar g (.submit id false confirmed form) .alert g
  | deleted {id : Bytes} {form : MemeTexts} :
      Step IsChar g (.submit id true true form) (.success deletedMsg Link.list.href)
        (g.after (.remove id))
  | notDeleted {id : Bytes} {form : MemeTexts} :
      Step IsChar g (.submit id true false form) .unchanged g

end GittyUp
