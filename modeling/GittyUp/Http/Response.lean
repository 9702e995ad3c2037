import GittyUp.Lib.Numeral
import GittyUp.Lib.UnorderedMap

/-!
# HTTP responses (`response.cc`)

A response is a status code, a map of headers and a body. Its text depends on
the order in which the header map is iterated.
-/

namespace GittyUp

open Lib

/-- `class response`. -/
structure Response where
  statusCode : Nat
  responseHeaders : UnorderedMap Bytes Bytes
  responseBody : Bytes

/-- The constructor `response::response`. -/
def Response.mk' (statusCode : Nat) (body : Bytes) : Response := ⟨statusCode, ∅, body⟩

/-- The table `response_codes`. -/
def responseCodes : List (Nat × Bytes) :=
  [(200, "OK"), (201, "Created"), (303, "See Other"), (400, "Bad Request"), (404, "Not Found"),
    (405, "Method Not Allowed"), (500, "Internal Server Error")]

namespace Response

/-- `response::get_header`. -/
def getHeader (r : Response) (name : Bytes) : Bytes := (r.responseHeaders.lookup name).getD ""

/-- `response::set_header`. -/
def setHeader (r : Response) (name value : Bytes) : Response :=
  { r with responseHeaders := r.responseHeaders.insert name value }

/-- `response::get_status_word`. -/
def statusWord (status : Nat) : Bytes := (responseCodes.lookup status).getD ""

/-- `response::generate_status_line`. -/
def generateStatusLine (r : Response) : Bytes :=
  lit "HTTP/1.1 " ++ decimal r.statusCode ++ lit " " ++ statusWord r.statusCode ++ lit "\r\n"

/-- `response::generate_header_lines`, the header map iterated as `order`. -/
def generateHeaderLines (order : List (Bytes × Bytes)) : Bytes :=
  (order.flatMap fun header => header.1 ++ lit ": " ++ header.2 ++ lit "\r\n") ++ lit "\r\n"

/-- `response::generate_response`. -/
def generateResponse (r : Response) (order : List (Bytes × Bytes)) : Bytes :=
  r.generateStatusLine ++ generateHeaderLines order ++ r.responseBody

end Response

end GittyUp
