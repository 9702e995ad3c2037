import GittyUp.Http.Session
import GittyUp.Lib.Stream
import GittyUp.Router.Router

/-!
# The reverse proxy (`reverse_proxy_handler.cc`)

The proxy collects the pairs of a location and a host from its block, picks the
host of a request by the URI's first segment, sends that host a request of its
own, and relays the body and the media type of what comes back. The upstream
host is a parameter: for a request it gives the reads up to the end of the
connection, or the exception of the connection that failed. A null config and a
token list that is too short are `none`; what `constructGetRequest` may run
into is a `ProxyFault`.
-/

namespace GittyUp

open Lib

/-- `class Reverse_proxy_handler`. -/
structure ReverseProxyHandler where
  location2proxy : UnorderedMap Bytes Bytes
  mimeType : Bytes
  portNum : Int
  redirect : Bool

/-- How a request to the proxy can fail. -/
inductive ProxyFault where
  /-- `uri[uri.size() - 1]` on an empty string. -/
  | emptyIndex
  /-- `iter->second` where `iter` is `location2proxy.end()`. -/
  | endIterator
  /-- An exception of the standard library or of the connection. -/
  | thrown (e : StdException)
  deriving DecidableEq, Repr

/-- What the proxy depends on besides its config and the request. -/
structure Upstream where
  /-- The answer of `host`, at the port, to a request: the reads up to the end
  of the connection. -/
  answer : Bytes → Int → Bytes → Except StdException (List Bytes)
  /-- The initial value of `port_num`. -/
  stalePort : Int
  /-- The initial value of `status_code`. -/
  staleStatus : Nat

namespace ReverseProxyHandler

/-! ## The constructor -/

/-- The loop of the constructor, with the last `location`. -/
def configure : NginxConfig → Bytes → ReverseProxyHandler → Option ReverseProxyHandler
  | [], _, handler => some handler
  | stmt :: rest, location, handler => do
    let keyword ← stmt.tokens[0]?
    if keyword = lit "location" then
      let location ← stmt.tokens[1]?
      configure rest location handler
    else if keyword = lit "root" then
      let host ← stmt.tokens[1]?
      configure rest location
        { handler with location2proxy := handler.location2proxy.insertNew location host }
    else if keyword = lit "port" then
      let port ← stmt.tokens[1]?
      configure rest location { handler with portNum := atoi port }
    else configure rest location handler

/-- The constructor `Reverse_proxy_handler::Reverse_proxy_handler`, which
dereferences its config. -/
def mk' (stalePort : Int) (config : Option NginxConfig) : Option ReverseProxyHandler := do
  let config ← config
  configure config [] ⟨∅, "", stalePort, false⟩

/-! ## The upstream host -/

/-- `constructGetRequest` up to the call of `sendGetRequest`: the host and the
path. -/
def findProxy (handler : ReverseProxyHandler) (uri : Bytes) : Except ProxyFault (Bytes × Bytes) :=
  match uri with
  | [] => .error (.thrown .outOfRange)
  | _ :: uri =>
    match uri.getLast? with
    | none => .error .emptyIndex
    | some last =>
      let uri := if last ≠ '/' then uri ++ lit "/" else uri
      -- `index` is where the first run of non-slashes ends; there is a slash
      match handler.location2proxy.lookup (lit "/" ++ uri.takeWhile fun c : Byte => c ≠ '/') with
      | none => .error .endIterator
      | some host => .ok (host, uri.dropWhile fun c : Byte => c ≠ '/')

/-! ## The exchange -/

/-- The request that is sent upstream. -/
def requestText (host path : Bytes) : Bytes :=
  lit "GET " ++ path ++ lit " HTTP/1.1\r\n" ++ lit "Host: " ++ host ++ lit "\r\n" ++
    lit "Accept: */*\r\n" ++ lit "Content-Base: " ++ host ++ lit "\r\n" ++
    lit "Connection: close\r\n\r\n"

/-- `int end = header.find(";")`; `npos` is the greatest `size_t`. -/
def findSemicolon (header : Bytes) : Int :=
  intOfSize ((header.idxOf? (';' : Byte)).getD (2 ^ 64 - 1))

/-- `header.substr(offset, end - offset)`; the count is converted to `size_t`.
(A difference that is no `int` is undefined in the source.) -/
def substrBetween (header : Bytes) (offset : Nat) (fin : Int) : Bytes :=
  (header.drop offset).take ((fin - offset) % 2 ^ 64).toNat

/-- The loop over the header lines, at most `fuel` of them: the media type and
the stream behind the blank line. (`len` only serves the progress that is
logged.) -/
def readHeaders : Nat → Bytes → IStream → Bytes × IStream
  | 0, mimeType, stream => (mimeType, stream)
  | fuel + 1, mimeType, stream =>
    match stream.getline with
    | (none, stream) => (mimeType, stream)
    | (some header, stream) =>
      if stream.fail ∨ header = lit "\r" then (mimeType, stream)
      else if lit "Content-Length: " <+: header then readHeaders fuel mimeType stream
      else if lit "Content-Type: " <+: header then
        readHeaders fuel (substrBetween header 14 (findSemicolon header)) stream
      else readHeaders fuel mimeType stream

/-- `sendGetRequest`: the rest of the answer behind the header lines, and the
handler. -/
def sendGetRequest (handler : ReverseProxyHandler) (up : Upstream) (host path : Bytes) :
    Except StdException (Bytes × ReverseProxyHandler) := do
  let reads ← up.answer host handler.portNum (requestText host path)
  let some (buffer, reads) := readUntil "\r\n" reads []
    | throw (.runtimeError "End of file")
  let (_, stream) := (IStream.ofBuffer buffer).extractWord
  let (status, stream) := stream.extractUnsigned
  let (_, stream) := stream.getline
  let some (buffer, reads) := readUntil "\r\n\r\n" reads stream.buffer
    | throw (.runtimeError "End of file")
  let (mimeType, stream) := readHeaders (buffer.length + 1) handler.mimeType
    { stream with buffer := buffer }
  let status := status.getD up.staleStatus
  return (stream.buffer ++ reads.flatten,
    { handler with mimeType := mimeType, redirect := handler.redirect || status = 301 ||
        status = 302 })

/-- `constructGetRequest`; the host and the path are handed on as C strings. -/
def constructGetRequest (handler : ReverseProxyHandler) (up : Upstream) (uri : Bytes) :
    Except ProxyFault (Bytes × ReverseProxyHandler) := do
  let (host, path) ← handler.findProxy uri
  match handler.sendGetRequest up (cStr host) (cStr path) with
  | .ok result => .ok result
  | .error e => .error (.thrown e)

/-- `Reverse_proxy_handler::handle_request`; `beyond` is the memory behind the
array that `get_raw_request` returns. -/
def handleRequest (handler : ReverseProxyHandler) (up : Upstream) (beyond : Bytes)
    (req : Request) : Except ProxyFault Response := do
  let (text, handler) ← handler.constructGetRequest up req.uri
  if handler.redirect then
    let body := cString req.rawRequest beyond
    return ((Response.mk' 200 body).setHeader "Content-Type" "text/plain").setHeader
      "Content-Length" (decimal body.length)
  else
    return ((Response.mk' 200 text).setHeader "Content-Type" handler.mimeType).setHeader
      "Content-Length" (decimal text.length)

end ReverseProxyHandler

end GittyUp
