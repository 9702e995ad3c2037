import GittyUp.Lib.RegexSearch
import GittyUp.Lib.UnorderedMap

/-!
# HTTP requests (`request.cc`)

A request is parsed by searching its bytes with regexes: one for the request
line, one for each header line, one for the body, and two for the query string
of the target.

`parse_query_string` assigns to `uri_` while the match `m` still points into it,
and reads `m.str(2)` afterwards. A path of at most 15 bytes is copied in place
and the query survives behind it; for a longer one the old buffer is handed over
and freed. What is then read is the argument `stale` of the model: any bytes.
-/

namespace GittyUp

open Lib Regex

/-- `^(\w+) (.+) HTTP\/(\d\.\d)\r\n`. -/
def statusLineRegex : Regex Byte :=
  concat [.bol, .group 1 (plus true word), literal " ", .group 2 (plus true dot),
    literal " HTTP/", .group 3 (concat [digit, literal ".", digit]), literal "\r\n"]

/-- `\n(.+)\: (.+)\r`. -/
def headerRegex : Regex Byte :=
  concat [literal "\n", .group 1 (plus true dot), literal ": ", .group 2 (plus true dot),
    literal "\r"]

/-- `\r\n\r\n(.+)$`. -/
def bodyRegex : Regex Byte :=
  concat [literal "\r\n\r\n", .group 1 (plus true dot), .eol]

/-- `^(.+)\?(.*)$`. -/
def queryStringRegex : Regex Byte :=
  concat [.bol, .group 1 (plus true dot), literal "?", .group 2 (.star true dot), .eol]

/-- `(.+?)=(.+?)(&*)`. -/
def queryParamRegex : Regex Byte :=
  concat [.group 1 (plus false dot), literal "=", .group 2 (plus false dot),
    .group 3 (.star true (literal "&"))]

/-- `class request`. -/
structure Request where
  rawRequest : Bytes
  method : Bytes
  uri : Bytes
  requestHeaders : UnorderedMap Bytes Bytes
  requestBody : Bytes
  queryString : UnorderedMap Bytes Bytes
  valid : Bool

/-- The loops of `parse_headers` and `parse_query_string`: insert the first two
groups of every match. -/
def insertMatches (matched : List (Match Byte)) : UnorderedMap Bytes Bytes :=
  matched.foldl (fun map iter => map.insertNew (iter.str 1) (iter.str 2)) ∅

/-- `request::parse_query_string`: the URI without its query, and the
parameters. It always returns `true`. -/
def parseQueryString (stale uri : Bytes) : Bytes × UnorderedMap Bytes Bytes :=
  match queryStringRegex.search uri with
  | none => (uri, ∅)
  | some m =>
    let qs := if (m.str 1).length < 16 then m.str 2 else stale
    (m.str 1, insertMatches (queryParamRegex.findAll qs))

/-- `request::parse_headers`. It always returns `true`. -/
def parseHeaders (req : Bytes) : UnorderedMap Bytes Bytes :=
  insertMatches (headerRegex.findAll req)

/-- `request::parse_body`. It always returns `true`. -/
def parseBody (req : Bytes) : Bytes :=
  match bodyRegex.search req with
  | none => ""
  | some m => m.str 1

/-- The constructor `request::request`, with `parse_request` and
`parse_status_line`. -/
def Request.mk' (stale data : Bytes) : Request :=
  match statusLineRegex.search data with
  | none => ⟨data, "", "", ∅, "", ∅, false⟩
  | some m =>
    let (uri, queryString) := parseQueryString stale (m.str 2)
    ⟨data, m.str 1, uri, parseHeaders data, parseBody data, queryString, true⟩

namespace Request

/-- `request::get_request_size`. -/
def requestSize (req : Request) : Nat := req.rawRequest.length

/-- `request::get_header`. -/
def getHeader (req : Request) (name : Bytes) : Bytes :=
  (req.requestHeaders.lookup name).getD ""

/-- `request::get_query_string_param`. -/
def getQueryStringParam (req : Request) (name : Bytes) : Bytes :=
  (req.queryString.lookup name).getD ""

end Request

/-- The constructor keeps all bytes of the request. -/
theorem Request.rawRequest_mk' (stale data : Bytes) : (Request.mk' stale data).rawRequest =
    data := by
  unfold Request.mk'
  cases statusLineRegex.search data <;> rfl

/-- A request is valid exactly when the search for a request line succeeds. -/
theorem Request.valid_mk' (stale data : Bytes) :
    (Request.mk' stale data).valid = (statusLineRegex.search data).isSome := by
  unfold Request.mk'
  cases statusLineRegex.search data <;> rfl

example : (Request.mk' [] "PUT /t?p=1&q=2 HTTP/1.1\r\nA: b\r\n\r\nbody").uri = "/t" := by decide

end GittyUp
