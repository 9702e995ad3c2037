import GittyUp.Http.Request
import GittyUp.Http.Response
import GittyUp.Meme.SqlLib
import GittyUp.Meme.UriLib

/-!
# The meme handler (`meme_handler.cc`)

`handleRequest` is the program that serves one request: its queries are the
statements it has SQLite execute. The UUID that `generate_new_meme` draws is an
argument. A program aborts with the exception that its code throws, or as
undefined behaviour where the source would index past the end of a row.
-/

namespace GittyUp

open Lib Regex

/-- How a request can fail to be answered. -/
inductive Abort where
  | exception (e : StdException)
  | undefinedBehaviour
  deriving DecidableEq, Repr

/-- A piece of the handler's code. -/
abbrev MemeProg (α : Type) := Prog Abort SqlStatement SqlReply α

/-- Code that may throw, but issues no statement. -/
def liftExcept {α : Type} : Except StdException α → MemeProg α
  | .ok a => .ret a
  | .error e => .abort (.exception e)

/-- `table_name_`. -/
def tableName : Bytes := "meme_table"

/-- `mime_types`. -/
def mimeTypes : List (Bytes × Bytes) :=
  [(".txt", "text/plain"), (".html", "text/html"), (".htm", "text/html"),
    (".jpg", "image/jpeg"), (".jpeg", "image/jpeg"), (".zip", "application/zip"),
    (".json", "application/json"), (".xml", "application/xml"), (".css", "text/css"),
    (".js", "application/javascript"), (".ico", "image/x-icon")]

/-- `meme_handler::get_mime_type`. -/
def getMimeType (extension : Bytes) : Bytes :=
  (mimeTypes.lookup extension).getD "application/octet-stream"

/-- The columns that the constructor creates the table with. -/
def memeTableParams : QueryParams :=
  [("id", "TEXT PRIMARY KEY NOT NULL"), ("img_path", "TEXT NOT NULL"),
    ("top_caption", "TEXT NOT NULL"), ("bot_caption", "TEXT NOT NULL"),
    ("times_viewed", "TEXT NOT NULL")]

/-! ## Checks of the input -/

/-- `\/memes/(.*)$`. -/
def checkUriRegex : Regex Byte := concat [literal "/memes/", .group 1 (.star true dot), .eol]

/-- `meme_handler::check_uri`. -/
def checkUri (uri : Bytes) : Bytes :=
  match checkUriRegex.search uri with
  | none => ""
  | some m => m.str 1

/-- `[0-9a-fA-F]`. -/
def hexClass : Regex Byte := .char fun c => IsHexDigit c

/-- `^[0-9a-fA-F]{8}\-[0-9a-fA-F]{4}\-[0-9a-fA-F]{4}\-[0-9a-fA-F]{4}\-[0-9a-fA-F]{12}$`. -/
def checkIdRegex : Regex Byte :=
  concat [.bol, times 8 hexClass, literal "-", times 4 hexClass, literal "-", times 4 hexClass,
    literal "-", times 4 hexClass, literal "-", times 12 hexClass, .eol]

/-- `meme_handler::check_id`. -/
def checkId (id : Bytes) : Bool := (checkIdRegex.search id).isSome

/-- A character of `[\w\.\,\?! ]`. -/
def IsCaptionChar (c : Byte) : Prop :=
  IsWordChar c ∨ c = '.' ∨ c = ',' ∨ c = '?' ∨ c = '!' ∨ c = ' '

instance : DecidablePred IsCaptionChar :=
  fun _ => inferInstanceAs (Decidable (_ ∨ _ ∨ _ ∨ _ ∨ _ ∨ _))

/-- `[\w\.\,\?! ]`. -/
def captionClass : Regex Byte := .char fun c => IsCaptionChar c

/-- `(\w+)=([\w\.\,\?! ]+)&*`. -/
def bodyParamRegex : Regex Byte :=
  concat [.group 1 (plus true word), literal "=", .group 2 (plus true captionClass),
    .star true (literal "&")]

/-- `\w+.jpg`. -/
def templateRegex : Regex Byte := concat [plus true word, dot, literal "jpg"]

/-- `[\w\.\,\?! ]+`. -/
def captionRegex : Regex Byte := plus true captionClass

/-- The three texts of a meme: `meme_template`, `top_caption` and
`bottom_caption`. -/
@[ext] structure MemeTexts where
  memeTemplate : Bytes
  topCaption : Bytes
  bottomCaption : Bytes
  deriving DecidableEq, Repr

/-- One iteration of the loop of `body_check`. -/
def bodyCheckStep (texts : MemeTexts) (iter : Match Byte) : MemeTexts :=
  let key := iter.str 1
  if key = "memeSelect" then { texts with memeTemplate := iter.str 2 }
  else if key = "topCaption" then { texts with topCaption := iter.str 2 }
  else if key = "bottomCaption" then { texts with bottomCaption := iter.str 2 }
  else texts

/-- `meme_handler::body_check`: the parameters, if the body is accepted. -/
def bodyCheck (body : Bytes) : Except StdException (Option MemeTexts) := do
  let body ← uriDecode body
  let texts := (bodyParamRegex.findAll body).foldl bodyCheckStep ⟨"", "", ""⟩
  if (templateRegex.search texts.memeTemplate).isNone then return none
  else if (captionRegex.search texts.topCaption).isNone then return none
  else if (captionRegex.search texts.bottomCaption).isNone then return none
  else return some texts

/-! ## Responses -/

/-- A response with a `Content-Type`. -/
def typedResponse (statusCode : Nat) (body contentType : Bytes) : Response :=
  (Response.mk' statusCode body).setHeader "Content-Type" contentType

/-- The body `{"id": "<id>"}`. -/
def idBody (id : Bytes) : Bytes := lit "\x7b\"id\": \"" ++ id ++ lit "\"\x7d"

/-! ## Creating, updating and deleting -/

/-- `meme_handler::generate_new_meme`. -/
def generateNewMeme (params : MemeTexts) (newId : Bytes) : MemeProg Bool :=
  insertRecord tableName [("id", newId), ("img_path", params.memeTemplate),
    ("top_caption", params.topCaption), ("bot_caption", params.bottomCaption),
    ("times_viewed", "0")]

/-- `meme_handler::create_meme`. -/
def createMeme (uuid : Bytes) (req : Request) : MemeProg Response := do
  match ← liftExcept (bodyCheck req.requestBody) with
  | none =>
    return typedResponse 400 "The provided meme creation request is invalid!\n" "text/plain"
  | some params =>
    let create ← generateNewMeme params uuid
    if create then return typedResponse 201 (idBody uuid) "application/json"
    else
      return typedResponse 500 "An error occurred while trying to create the provided meme!\n"
        "text/plain"

/-- `meme_handler::update_meme`. -/
def updateMeme (req : Request) (memeId : Bytes) : MemeProg Response := do
  let test := checkId memeId
  match test, ← liftExcept (bodyCheck req.requestBody) with
  | true, some params =>
    let update ← updateRecord tableName [("img_path", params.memeTemplate),
      ("top_caption", params.topCaption), ("bot_caption", params.bottomCaption)] [("id", memeId)]
    if update then return typedResponse 200 (idBody memeId) "application/json"
    else
      return typedResponse 500 "An error occurred while trying to update the provided meme!\n"
        "text/plain"
  | _, _ =>
    return typedResponse 400 "The provided meme update request is invalid!\n" "text/plain"

/-- `meme_handler::delete_meme`. -/
def deleteMeme (memeId : Bytes) : MemeProg Response := do
  if checkId memeId then
    let del ← deleteRecord tableName [("id", memeId)]
    if del then return typedResponse 200 (idBody memeId) "application/json"
    else
      return typedResponse 500 "An error occurred while trying to delete the provided meme!\n"
        "text/plain"
  else return typedResponse 400 "The provided meme delete request is invalid!\n" "text/plain"

/-! ## Reading -/

/-- `meme_handler::redirect_request`. -/
def redirectRequest (location : Bytes) : Response :=
  let target : Bytes :=
    if location = "create" then "/web/memes/create.html"
    else if location = "list" then "/web/memes/list.html"
    else if location.take 7 = "manage/" then
      lit "/web/memes/manage.html?id=" ++ location.drop 7
    else lit "/web/memes/view.html?id=" ++ location
  (Response.mk' 303 (lit "Location: " ++ target)).setHeader "Location" target

/-- `std::stoi(row[4])`. -/
def timesViewed (row : Row) : Except Abort Int :=
  match row[4]? with
  | none => .error .undefinedBehaviour
  | some text =>
    match stoi text with
    | .ok n => .ok n
    | .error e => .error (.exception e)

/-- `std::stable_sort` with `compareMemes`, which looks at every row if there are
two. -/
def sortMemes (rows : List Row) : Except Abort (List Row) :=
  if rows.length < 2 then .ok rows
  else do
    let keyed ← rows.mapM fun row => do
      let views ← timesViewed row
      return (views, row)
    return (keyed.mergeSort fun a b => a.1 ≤ b.1).map Prod.snd

/-- The entry of a row in a list of memes. -/
def memeEntry (row : Row) : Except Abort Bytes :=
  match row with
  | id :: img :: top :: bot :: views :: _ =>
    .ok (lit "\"" ++ id ++ lit ":" ++ views ++ lit ":" ++ img ++ lit ":" ++ top ++ lit ":" ++
      bot ++ lit "\"")
  | _ => .error .undefinedBehaviour

/-- The loop that writes the entries, with `remaining` iterations left: the index `i`
counts up, and the row is read at `result.size() - 1 - i`. -/
def memeEntriesLoop (result : List Row) : Nat → Bool → Except Abort Bytes
  | 0, _ => .ok ""
  | remaining + 1, addComma => do
    let i := result.length - (remaining + 1)
    let entry ← (result[result.length - 1 - i]?).elim (.error .undefinedBehaviour) memeEntry
    let rest ← memeEntriesLoop result remaining true
    return (if addComma then lit "," else []) ++ entry ++ rest

/-- The common end of `meme_list` and `meme_search`. -/
def memeArray (result : List Row) : MemeProg Response :=
  let output : Except Abort Bytes := do
    let sorted ← sortMemes result
    let entries ← memeEntriesLoop sorted sorted.length false
    return lit "[" ++ entries ++ lit "]"
  match output with
  | .ok output => .ret (typedResponse 200 output (getMimeType ".json"))
  | .error e => .abort e

/-- `meme_handler::meme_list`. -/
def memeList : MemeProg Response := do
  let result ← selectRecord tableName []
  memeArray result

/-- `meme_handler::meme_search`. -/
def memeSearch (query : Bytes) : MemeProg Response := do
  let decodedQuery ← liftExcept (uriDecode query)
  let result ← searchRecord tableName
    [("top_caption", decodedQuery), ("bot_caption", decodedQuery)]
  memeArray result

/-- `std::to_string` of the 32-bit value of an integer. -/
def intText (n : Int) : Bytes :=
  let n := n.bmod (2 ^ 32)
  if n < 0 then lit "-" ++ decimal n.natAbs else decimal n.natAbs

/-- The body of a single meme. -/
def memeBody (texts : MemeTexts) : Bytes :=
  lit "\x7b\"memeSelect\": \"" ++ texts.memeTemplate ++ lit "\", \"topCaption\": \"" ++
    texts.topCaption ++ lit "\", \"bottomCaption\": \"" ++ texts.bottomCaption ++ lit "\"\x7d"

/-- The end of `get_meme_by_id`, with the row's texts. -/
def memeResponse (texts : MemeTexts) : Response :=
  if texts.memeTemplate = [] ∨ texts.topCaption = [] ∨ texts.bottomCaption = [] then
    typedResponse 400 "The provided meme has been corrupted!" (getMimeType ".txt")
  else typedResponse 200 (memeBody texts) (getMimeType ".json")

/-- `meme_handler::get_meme_by_id` after the `SELECT`. -/
def countView (result : List Row) : MemeProg Response :=
  match result with
  | [row] =>
    match row with
    | id :: memeTemplate :: topCaption :: bottomCaption :: _ =>
      match timesViewed row with
      | .error e => .abort e
      | .ok currTimesViewed => do
        let _ ← updateRecord tableName [("times_viewed", intText (currTimesViewed + 1))]
          [("id", id)]
        return memeResponse ⟨memeTemplate, topCaption, bottomCaption⟩
    | _ => .abort .undefinedBehaviour
  | _ => .ret (typedResponse 404 "The requested file could not be found!\n" "text/plain")

/-- `meme_handler::get_meme_by_id`. -/
def getMemeById (id : Bytes) : MemeProg Response := do
  let result ← selectRecord tableName [("id", id)]
  countView result

/-! ## Dispatch -/

/-- What a GET asks for, by the part of its URI that `check_uri` returns. -/
inductive GetTarget where
  | redirect (location : Bytes)
  | list
  | search (query : Bytes)
  | byId (id : Bytes)
  deriving DecidableEq, Repr

/-- The branches of `handle_request` for GET. -/
def getTarget (check : Bytes) : GetTarget :=
  if check = "create" ∨ check = "create/" then .redirect "create"
  else if check = "view" ∨ check = "view/" then .redirect "list"
  else if 7 < check.length ∧ check.take 7 = "manage/" then .redirect check
  else if 5 < check.length ∧ check.take 5 = "view/" then .redirect (check.drop 5)
  else if check = "" ∨ check = "/" then .list
  else if 7 < check.length ∧ check.take 7 = "search/" then .search (check.drop 7)
  else .byId check

/-- `meme_handler::invalid_method`. -/
def invalidMethod : Response :=
  typedResponse 405 "This route only supports the HTTP GET and POST methods!" "text/plain"

/-- `meme_handler::handle_request`. -/
def handleRequest (uuid : Bytes) (req : Request) : MemeProg Response :=
  if req.method = "POST" then createMeme uuid req
  else if req.method = "PUT" then updateMeme req (checkUri req.uri)
  else if req.method = "DELETE" then deleteMeme (checkUri req.uri)
  else if req.method = "GET" then
    match getTarget (checkUri req.uri) with
    | .redirect location => .ret (redirectRequest location)
    | .list => memeList
    | .search query => memeSearch query
    | .byId id => getMemeById id
  else .ret invalidMethod

end GittyUp
