import GittyUp.Lib.Cut
import GittyUp.Lib.Json
import GittyUp.Meme.Form

/-!
# The pages (`web/memes/*.js`)

The handler redirects a browser to four pages, each with a script that calls the
handler again and shows what it answers. A script is a program whose calls are
requests; what the browser and jQuery do for it is a `Browser`.
-/

namespace GittyUp

open Lib

/-! ## Requests and responses -/

/-- The settings of a call of `$.ajax`. A link that is followed is a GET. -/
structure AjaxSettings where
  url : Bytes
  type : Bytes
  data : Option Bytes
  deriving DecidableEq

/-- A script that gets the texts of the responses. -/
abbrev PageProg (α : Type) := Prog Abort AjaxSettings (Except Abort Bytes) α

/-- What the scripts use of the browser and of jQuery. -/
structure Browser where
  /-- The text of a request. -/
  requestText : AjaxSettings → Bytes
  /-- The callback of `$.ajax` for the text of a response: `success` with the data, or
  `error`. -/
  callback : Bytes → Option Json
  /-- Where the text of a response redirects to. -/
  redirect : Bytes → Option Bytes
  /-- `form.serialize()`. -/
  serialize : List (Bytes × Bytes) → Bytes
  /-- The query of a form that is submitted by GET. -/
  formQuery : List (Bytes × Bytes) → Bytes
  /-- `URLSearchParams(search).get(name)`. -/
  searchParam : Bytes → Bytes → Option Bytes

/-- A request, and the text of its response. -/
def fetch (settings : AjaxSettings) : PageProg Bytes :=
  .call settings fun reply =>
    match reply with
    | .ok text => .ret text
    | .error e => .abort e

/-- `$.ajax`: the data that `success` is called with, if it is not `error`. -/
def ajax (b : Browser) (settings : AjaxSettings) : PageProg (Option Json) := do
  let text ← fetch settings
  return b.callback text

/-- `data.name`, as it is appended to a string. -/
def memberText (data : Json) (name : Bytes) : Bytes :=
  match data with
  | .object members =>
    match members.reverse.lookup name with
    | some (.string s) => s
    | _ => "undefined"
  | _ => "undefined"

/-! ## What is shown -/

/-- What `manage.js` keeps: `id`, `action` and `method`. -/
structure ManagePage where
  id : Bytes
  action : Bytes
  method : Bytes
  deriving DecidableEq

/-- The parts of an entry of the list. -/
structure ListItem where
  viewHref : Bytes
  manageHref : Bytes
  src : Bytes
  topText : Bytes
  bottomText : Bytes
  timesViewed : Bytes
  deriving DecidableEq

/-- What a page shows when its script has come to an end. -/
inductive Screen where
  /-- `create.html`, to be filled in. -/
  | creator
  /-- "Please fill out all fields!" -/
  | alert
  /-- The message and the link of a success. -/
  | success (successMsg href : Bytes)
  /-- The image and the captions of a meme. -/
  | viewer (src topCaption bottomCaption : Bytes)
  /-- The form of a meme; no option is selected if the image is none of them. -/
  | editor (page : ManagePage) (imageSelect : Option Bytes) (topCaption bottomCaption : Bytes)
  /-- The list, and the text above it after a search. -/
  | lister (items : List ListItem) (resultString : Option Bytes)
  | error (errorMsg : Bytes)
  /-- The page as it was, or one without a script. -/
  | unchanged
  deriving DecidableEq

/-! ### The messages -/

def createdMsg : Bytes := "Success! You're on your way to meme dankdom. Check your new meme out "

def createErrorMsg : Bytes := "Oh no! Something went wrong while trying to create your meme!"

/-- Of `view.html`, and of `manage.js`. -/
def notFoundMsg : Bytes := "Sorry, we couldn't find that meme!"

def updatedMsg : Bytes := "Congratulations! Your meme is that much more dank now. Check it out "

def updateErrorMsg : Bytes :=
  "Oh no! Looks like something went wrong while trying to update this meme."

def deletedMsg : Bytes := "Congratulations! Your meme is no more. Check out the "

def deleteErrorMsg : Bytes :=
  "Oh no! Looks like something went wrong while trying to delete this meme."

def listErrorMsg : Bytes := "Sorry, we couldn't find the meme list!"

/-! ### The forms -/

/-- The fields that a form sends. -/
def MemeTexts.fields (form : MemeTexts) : List (Bytes × Bytes) :=
  memeFields form.memeTemplate form.topCaption form.bottomCaption

/-- `requiredCheck`: all fields are filled out. -/
def requiredCheck (form : MemeTexts) : Bool :=
  form.memeTemplate ≠ [] ∧ form.topCaption ≠ [] ∧ form.bottomCaption ≠ []

section Scripts

variable (b : Browser)

/-! ## `create.js` -/

/-- `postMemeData`. -/
def postMemeData (form : MemeTexts) : PageProg Screen :=
  if requiredCheck form then do
    match ← ajax b ⟨"/memes/", "POST", some (b.serialize form.fields)⟩ with
    | some data =>
      return .success createdMsg (lit "/memes/view/" ++ memberText data "id")
    | none => return .error createErrorMsg
  else return .alert

/-! ## `view.js` -/

/-- `parseUrl`; `null` is appended as a text. -/
def parseUrl (search : Bytes) : Bytes := (b.searchParam search "id").getD "null"

/-- `populateData` of `view.js`. -/
def populateView (memeData : Json) : Screen :=
  .viewer (lit "/image/memes/" ++ memberText memeData "memeSelect")
    (memberText memeData "topCaption") (memberText memeData "bottomCaption")

/-- The page `view.html`. -/
def viewReady (search : Bytes) : PageProg Screen := do
  match ← ajax b ⟨lit "/memes" ++ lit "/" ++ parseUrl b search, "GET", none⟩ with
  | some data => return populateView data
  | none => return .error notFoundMsg

/-! ## `manage.js` -/

/-- The images that can be selected. -/
def imageOptions : List Bytes := ["", "simply.jpg", "grumpy.jpg", "ermahgerd.jpg"]

/-- The option that `img.val` selects: the one with this value. -/
def selectedOption (image : Bytes) : Option Bytes := imageOptions.find? (· = image)

/-- The page when its URL has been parsed. -/
def ManagePage.opened (search : Bytes) : ManagePage :=
  let id := parseUrl b search
  ⟨id, lit "/memes/" ++ id, "PUT"⟩

/-- `populateData` of `manage.js`. -/
def populateEditor (page : ManagePage) (memeData : Json) : Screen :=
  .editor page (selectedOption (memberText memeData "memeSelect"))
    (memberText memeData "topCaption") (memberText memeData "bottomCaption")

/-- The page `manage.html`. -/
def manageReady (search : Bytes) : PageProg Screen := do
  let page := ManagePage.opened b search
  match ← ajax b ⟨lit "/memes" ++ lit "/" ++ page.id, "GET", none⟩ with
  | some data => return populateEditor page data
  | none => return .error notFoundMsg

/-- `toggleDeleteView`. -/
def ManagePage.toggleDeleteView (page : ManagePage) (checked : Bool) : ManagePage :=
  { page with method := if checked then "DELETE" else "PUT" }

/-- `putMemeData`. -/
def putMemeData (page : ManagePage) (form : MemeTexts) : PageProg Screen :=
  if requiredCheck form then do
    match ← ajax b ⟨page.action, "PUT", some (b.serialize form.fields)⟩ with
    | some _ => return .success updatedMsg (lit "/memes/view/" ++ page.id)
    | none => return .error updateErrorMsg
  else return .alert

/-- `deleteMemeData`. -/
def deleteMemeData (page : ManagePage) : PageProg Screen := do
  match ← ajax b ⟨page.action, "DELETE", none⟩ with
  | some _ => return .success deletedMsg "/memes/view"
  | none => return .error deleteErrorMsg

/-- `sendRequest`, with the answer to `confirm`. -/
def ManagePage.sendRequest (page : ManagePage) (confirmed : Bool) (form : MemeTexts) :
    PageProg Screen :=
  if page.method = "PUT" then putMemeData b page form
  else if page.method = "DELETE" then
    if confirmed then deleteMemeData b page else return .unchanged
  else return .unchanged

/-! ## `list.js` -/

/-- `vars["q"]` after the loop over the parts of the URL. -/
def queryOf (href : Bytes) : Option Bytes :=
  let rest := match cutAt (lit "?") href with
    | some (_, rest) => rest
    | none => href
  let hashes := (rest.splitOn ('&' : Byte)).map fun part => part.splitOn ('=' : Byte)
  (hashes.reverse.find? fun hash => hash.head? = some (lit "q")).bind fun hash => hash[1]?

/-- One iteration of `populateList`. -/
def listItem (entry : Bytes) : ListItem :=
  let splitEntry := entry.splitOn (':' : Byte)
  let part (i : Nat) : Bytes := (splitEntry[i]?).getD "undefined"
  ⟨lit "/memes/view/" ++ part 0, lit "/memes/manage/" ++ part 0, lit "/image/memes/" ++ part 2,
    lit "Top Text: " ++ part 3, lit "Bottom Text: " ++ part 4, lit "Times viewed: " ++ part 1⟩

/-- The entries that `$.each` gives, if they are all strings. -/
def listEntries : Json → Option (List Bytes)
  | .array items => items.mapM fun item =>
    match item with
    | .string entry => some entry
    | _ => none
  | _ => none

/-- `displayNumResults`. -/
def resultString (query : Bytes) (numEntries : Nat) : Bytes :=
  if 0 < numEntries then
    lit "Found " ++ decimal numEntries ++ lit " results for " ++ query ++ lit "."
  else lit "No results found for " ++ query ++ lit "."

/-- `getMemeList` and `populateList`; the text is displayed after a search. -/
def getMemeList (uri : Bytes) (search : Option Bytes) : PageProg Screen := do
  match ← ajax b ⟨uri, "GET", none⟩ with
  | some memeList =>
    match listEntries memeList with
    | some entries =>
      return .lister (entries.map listItem) (search.map fun query =>
        resultString query entries.length)
    | none => return .unchanged
  | none => return .error listErrorMsg

/-- The page `list.html`. -/
def listReady (href : Bytes) : PageProg Screen :=
  match queryOf href with
  | none => getMemeList b "/memes" none
  | some query =>
    if query = [] then getMemeList b "/memes" none
    else getMemeList b (lit "/memes/search/" ++ query) (some query)

/-! ## Links -/

/-- The page of a URL, with its script. -/
def openPage (href : Bytes) : PageProg Screen :=
  let (path, search) := match cutAt (lit "?") href with
    | some (path, rest) => (path, lit "?" ++ rest)
    | none => (href, [])
  if path = "/web/memes/create.html" then return .creator
  else if path = "/web/memes/view.html" then viewReady b search
  else if path = "/web/memes/manage.html" then manageReady b search
  else if path = "/web/memes/list.html" then listReady b href
  else return .unchanged

/-- A link to the handler is followed to the page that it redirects to. -/
def followLink (url : Bytes) : PageProg Screen := do
  let text ← fetch ⟨url, "GET", none⟩
  match b.redirect text with
  | some href => openPage b href
  | none => return .unchanged

end Scripts

end GittyUp
