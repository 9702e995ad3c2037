import GittyUp.Http.Session
import GittyUp.Meme.Handler
import GittyUp.Router.Status

/-!
# The other handlers

The handlers for echoing, static files, health checks and unknown URIs, the
response of the status handler, and what a handler that `select_handler` has
created may return. The files are a parameter, and so is the memory behind a
raw request.
-/

namespace GittyUp

open Lib Regex

/-- `echo_handler::handle_request`; the header `Thread-Sleep` only delays it. -/
def echoHandleRequest (beyond : Bytes) (req : Request) : Response :=
  typedResponse 200 (cString req.rawRequest beyond) "text/plain"

/-- `health_handler::handle_request`. -/
def healthHandleRequest (req : Request) : Response :=
  if req.uri = "/health" then typedResponse 200 "OK" "text/plain"
  else typedResponse 400 "Requested file was not found!\n" "text/plain"

/-- `default_handler::handle_request`. -/
def defaultHandleRequest (req : Request) : Response :=
  typedResponse 404 (lit "The requested resource at " ++ req.uri ++ lit " could not be found!")
    "text/plain"

/-- `status_handler::generate_status_response`. -/
def statusResponse (page : StatusPage) : Response :=
  { typedResponse 200 "Status message goes here." "text/html" with responseBody := page.text }

/-! ## Static files -/

/-- The loop of `static_file_handler::get_static_file_path`; the last one wins. -/
def staticFilePathLoop : NginxConfig → Bytes → Bytes
  | [], output => output
  | statement :: rest, output =>
    match statement.tokens with
    | [keyword, path] => staticFilePathLoop rest (if keyword = "root" then path else output)
    | _ => staticFilePathLoop rest output

/-- The constructor of a `static_file_handler`: its `path_`, unless the config is
null. -/
def staticPath (config : Option NginxConfig) (rootPath : Bytes) : Option Bytes := do
  let config ← config
  some (rootPath ++ staticFilePathLoop config "")

/-- `\/(\w+)(\.\w+)$`. -/
def fileInfoRegex : Regex Byte :=
  concat [literal "/", .group 1 (plus true word), .group 2 (concat [literal ".", plus true word]),
    .eol]

/-- `static_file_handler::parse_file_info`: the name and the extension. -/
def parseFileInfo (uri : Bytes) : Option (Bytes × Bytes) :=
  match fileInfoRegex.search uri with
  | none => none
  | some m => some (m.str 1, m.str 2)

/-- What a path can lead to that may be opened for reading. -/
inductive FileEntry where
  | file (content : Bytes)
  | directory
  deriving DecidableEq, Repr

/-- What is read from an opened stream: a directory can be opened, but gives
nothing. -/
def FileEntry.content : FileEntry → Bytes
  | .file content => content
  | .directory => []

/-- The files and directories that may be opened for reading, by their paths,
which have no NUL in them. -/
structure FileSystem where
  entry : Bytes → Option FileEntry
  nulFree : ∀ path, (entry path).isSome → NulFree path

/-- Nothing but one file. -/
def FileSystem.single (path content : Bytes) (h : NulFree path) : FileSystem where
  entry p := if p = path then some (.file content) else none
  nulFree p hp := by
    split_ifs at hp with heq
    · exact heq ▸ h
    · contradiction

/-- `static_file_handler::serve_file`. -/
def serveFile (files : FileSystem) (path : Bytes) (req : Request) : Response :=
  match parseFileInfo req.uri with
  | none => typedResponse 404 "The requested file could not be found!\n" "text/plain"
  | some (name, extension) =>
    match files.entry (cStr (path ++ lit "/" ++ name ++ extension)) with
    | none => typedResponse 404 "The requested file could not be found!\n" "text/plain"
    | some t => typedResponse 200 t.content (getMimeType extension)

/-- `static_file_handler::handle_request`. -/
def staticHandleRequest (files : FileSystem) (path : Bytes) (req : Request) : Response :=
  if req.method = "GET" then serveFile files path req
  else typedResponse 405 "This route only supports the HTTP GET method!" "text/plain"

/-! ## What a handler returns -/

/-- What the handlers depend on besides their config and the request. -/
structure HandlerSurroundings where
  serverRoot : Bytes
  files : FileSystem
  beyond : Bytes

/-- A handler of the class, created with the config, may return the response to
the request: the status handler and the meme handler for some replies of the
recorder and of the database. -/
inductive Returns (env : HandlerSurroundings) (req : Request) :
    HandlerClass → Option NginxConfig → Response → Prop
  | echo {config} : Returns env req .echo config (echoHandleRequest env.beyond req)
  | staticFile {config path} : staticPath config env.serverRoot = some path →
      Returns env req .staticFile config (staticHandleRequest env.files path req)
  | status {config page} : readStatus.Yields (some page) →
      Returns env req .status config (statusResponse page)
  | meme {config uuid resp} : (handleRequest uuid req).Yields resp →
      Returns env req .meme (some config) resp
  | health {config} : Returns env req .health config (healthHandleRequest req)
  | default {config} : Returns env req .default config (defaultHandleRequest req)

/-- The router dispatches the request to a handler, which returns the response.
(The responses of the reverse proxy are those of `ReverseProxyHandler.handleRequest`.) -/
def Serves (r : Router) (order : List (Bytes × Bytes)) (env : HandlerSurroundings) (req : Request)
    (resp : Response) : Prop :=
  ∃ handlerClass config, selectHandler r order req.uri = some (handlerClass, config) ∧
    Returns env req handlerClass config resp

/-- A router with the meme handler alone. -/
def memeRouter : Router :=
  ⟨[.mk ["handler", "meme"] (some [.mk ["location", "/memes"] none])], "",
    ⟨[⟨"/memes", "meme"⟩], List.nodupKeys_singleton _⟩, ∅⟩

end GittyUp
