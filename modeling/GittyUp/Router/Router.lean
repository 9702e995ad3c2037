import GittyUp.Config.Tree
import GittyUp.Lib.UnorderedMap

/-!
# The router (`router.cc`)

The router keeps a map from registered URI prefixes to handler names, filled
from the router block of the config, and picks the handler of a URI by the
longest registered prefix. The functions that index a statement's token list
return `none` where the source reads past its end. A range-`for` over the route
map takes the order of iteration as an argument.
-/

namespace GittyUp

open Lib

/-- `server_status_recorder`: what the status page shows. -/
structure StatusRecorder where
  urlResponseList : List (Bytes × Nat)
  prefixHandlerList : List (Bytes × Bytes)

/-- `server_status_recorder::prefix_recorder`. -/
def StatusRecorder.prefixRecorder (r : StatusRecorder) (pair : Bytes × Bytes) :
    StatusRecorder :=
  { r with prefixHandlerList := r.prefixHandlerList ++ [pair] }

/-- `class router` (its mutexes apart). -/
structure Router where
  config : NginxConfig
  serverRoot : Bytes
  routeMap : UnorderedMap Bytes Bytes
  headers : UnorderedMap Bytes Bytes

/-- A router together with the process-wide status recorder it reports to. -/
structure RouterState where
  router : Router
  recorder : StatusRecorder

/-- The constructor `router::router`. -/
def Router.mk' (config : NginxConfig) (serverRoot : Bytes) : Router :=
  ⟨config, serverRoot, ∅, ∅⟩

/-! ## Registration -/

/-- `router::register_route`. -/
def registerRoute (st : RouterState) (uri handlerName : Bytes) : RouterState :=
  if uri ∉ st.router.routeMap then
    ⟨{ st.router with routeMap := st.router.routeMap.insertNew uri handlerName },
      st.recorder.prefixRecorder (uri, handlerName)⟩
  else st

/-- The inner loop of `register_routes_from_config`, over the statements of one
handler block. -/
def registerLocations (handlerKey : Bytes) : NginxConfig → RouterState → Option RouterState
  | [], st => some st
  | s :: rest, st =>
    if s.tokens[0]? = some (lit "location") then do
      let uri ← s.tokens[1]?
      registerLocations handlerKey rest (registerRoute st uri handlerKey)
    else registerLocations handlerKey rest st

/-- The outer loop of `register_routes_from_config`. -/
def registerHandlers : NginxConfig → RouterState → Option RouterState
  | [], st => some st
  | statement :: rest, st =>
    match statement.tokens[0]?, statement.tokens[1]?, statement.childBlock with
    | some keyword, some handlerKey, some rConfig =>
      if keyword = lit "handler" then do
        let st ← registerLocations handlerKey rConfig st
        registerHandlers rest st
      else registerHandlers rest st
    | _, _, _ => registerHandlers rest st

/-- `router::register_routes_from_config`. -/
def registerRoutesFromConfig (st : RouterState) : Option RouterState :=
  registerHandlers st.router.config st

/-! ## Selection -/

/-- The loop of `router::get_handler_config`; the last block of the name wins. -/
def getHandlerConfigLoop (handlerName : Bytes) :
    NginxConfig → Option NginxConfig → Option (Option NginxConfig)
  | [], output => some output
  | statement :: rest, output =>
    match statement.childBlock with
    | none => getHandlerConfigLoop handlerName rest output
    | some child => do
      let keyword ← statement.tokens[0]?
      if keyword = lit "handler" ∧ statement.tokens[1]? = some handlerName then
        getHandlerConfigLoop handlerName rest (some child)
      else getHandlerConfigLoop handlerName rest output

/-- `router::get_handler_config`: the inner `none` is a null pointer. -/
def getHandlerConfig (r : Router) (handlerName : Bytes) : Option (Option NginxConfig) :=
  getHandlerConfigLoop handlerName r.config none

/-- `router::validProxy`. -/
def validProxy (name : Bytes) : NginxConfig → Option Bool
  | [] => some false
  | stmt :: rest => do
    let keyword ← stmt.tokens[0]?
    if keyword = lit "location" then
      let location ← stmt.tokens[1]?
      if location = name then some true else validProxy name rest
    else validProxy name rest

/-- `router::get_route_handler`. -/
def getRouteHandler (r : Router) (uri : Bytes) : Option Bytes :=
  match r.routeMap.lookup uri with
  | some handler => some handler
  | none => do
    match ← getHandlerConfig r "proxy" with
    | none => some "default"
    | some proxyConfig =>
      let valid ← validProxy uri proxyConfig
      some (if valid then "proxy" else "default")

/-- The comparison loop of `longest_prefix_match`, on a URI at least as long as
the mapping. -/
def prefixMatches : Bytes → Bytes → Bool
  | [], _ => true
  | _ :: _, [] => false
  | c :: mapping, d :: uri => c == d && prefixMatches mapping uri

/-- The loop of `longest_prefix_match` over the route map, with the longest
match so far. -/
def longestPrefixMatchLoop (uri : Bytes) : List (Bytes × Bytes) → Bytes → Bytes
  | [], longest => longest
  | mapping :: rest, longest =>
    if uri.length < mapping.1.length then longestPrefixMatchLoop uri rest longest
    else if prefixMatches mapping.1 uri then
      longestPrefixMatchLoop uri rest
        (if longest.length < mapping.1.length then mapping.1 else longest)
    else longestPrefixMatchLoop uri rest longest

/-- `router::longest_prefix_match`, the route map iterated as `order`. -/
def longestPrefixMatch (order : List (Bytes × Bytes)) (uri : Bytes) : Bytes :=
  longestPrefixMatchLoop uri order []

/-- The handler name that `router::select_handler` dispatches on. -/
def selectHandlerName (r : Router) (order : List (Bytes × Bytes)) (uri : Bytes) :
    Option Bytes :=
  getRouteHandler r (longestPrefixMatch order uri)

/-- The classes of handlers that `router::select_handler` creates. -/
inductive HandlerClass where
  | echo
  | staticFile
  | status
  | proxy
  | meme
  | health
  | default
  deriving DecidableEq, Repr

/-- The dispatch of `router::select_handler`: the class to create and the name
under which its config is looked up. -/
def handlerClass (handler : Bytes) : HandlerClass × Bytes :=
  if handler = "echo" then (.echo, "echo")
  else if handler = "static1" then (.staticFile, "static1")
  else if handler = "static2" then (.staticFile, "static2")
  else if handler = "webMeme" then (.staticFile, "webMeme")
  else if handler = "imageMeme" then (.staticFile, "imageMeme")
  else if handler = "status" then (.status, "status")
  else if handler = "proxy" then (.proxy, "proxy")
  else if handler = "meme" then (.meme, "meme")
  else if handler = "health" then (.health, "health")
  else (.default, "default")

/-- `router::select_handler`: the class created, with the config it is given. -/
def selectHandler (r : Router) (order : List (Bytes × Bytes)) (uri : Bytes) :
    Option (HandlerClass × Option NginxConfig) := do
  let handler ← selectHandlerName r order uri
  let config ← getHandlerConfig r (handlerClass handler).2
  some ((handlerClass handler).1, config)

end GittyUp
