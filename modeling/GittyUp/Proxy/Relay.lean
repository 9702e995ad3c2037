import GittyUp.Http.Wire
import GittyUp.Proxy.Upstream

/-!
# What the proxy relays

However an upstream response is split into reads, the proxy relays its body. It
relays the media type of the last `Content-Type` line exactly when that line has
parameters: `find(";")` is -1 otherwise, and the rest of the line is taken with
its carriage return (`relayed_iff`).
-/

namespace GittyUp

open Lib

/-- An upstream response: a status line, header lines, a blank line, a body. -/
structure UpstreamResponse where
  version : Bytes
  status : Byte × Byte × Byte
  reason : Bytes
  headers : List Bytes
  body : Bytes

namespace UpstreamResponse

/-- The digits of the status code. -/
def statusDigits (r : UpstreamResponse) : Bytes := [r.status.1, r.status.2.1, r.status.2.2]

/-- The status code. -/
def statusCode (r : UpstreamResponse) : Nat := digitsValue r.statusDigits

/-- The status line without its line end. -/
def statusText (r : UpstreamResponse) : Bytes :=
  r.version ++ lit " " ++ r.statusDigits ++ lit " " ++ r.reason

/-- The bytes of the response. -/
def message (r : UpstreamResponse) : Bytes :=
  r.statusText ++ [cr, lf] ++ (terminated r.headers ++ [cr, lf] ++ r.body)

/-- A response that is no redirect, well-formed line by line, and not longer
than a string can be. -/
structure WellFormed (r : UpstreamResponse) : Prop where
  version : r.version ≠ [] ∧ ∀ d ∈ r.version, ¬ IsSpace d
  digits : ∀ d ∈ r.statusDigits, IsDigit d
  noRedirect : r.statusCode ≠ 301 ∧ r.statusCode ≠ 302
  reason : OneLine r.reason
  headers : r.headers ≠ [] ∧ ∀ line ∈ r.headers, IsLine line
  fits : r.message.length < 2 ^ 63

/-- A response that is no redirect, and whose header lines are lines for `getline`:
there may be carriage returns in them. -/
structure Readable (r : UpstreamResponse) : Prop where
  version : r.version ≠ [] ∧ ∀ d ∈ r.version, ¬ IsSpace d
  digits : ∀ d ∈ r.statusDigits, IsDigit d
  noRedirect : r.statusCode ≠ 301 ∧ r.statusCode ≠ 302
  reason : OneLine r.reason
  headers : r.headers ≠ [] ∧ ∀ line ∈ r.headers, line ≠ [] ∧ lf ∉ line

theorem WellFormed.readable {r : UpstreamResponse} (h : r.WellFormed) : r.Readable where
  version := h.version
  digits := h.digits
  noRedirect := h.noRedirect
  reason := h.reason
  headers := ⟨h.headers.1, fun line hline =>
    ⟨(h.headers.2 line hline).1, (h.headers.2 line hline).2.lf_not_mem⟩⟩

end UpstreamResponse

/-- The last `Content-Type` line is that of the media type, with parameters (from
their `;` on) or without. -/
structure LastContentType (headers : List Bytes) (media params : Bytes) : Prop where
  line : ∃ before after, headers = before ++ (lit "Content-Type: " ++ media ++ params) :: after ∧
    ∀ line ∈ after, ¬ lit "Content-Type: " <+: line
  media : (';' : Byte) ∉ media
  params : params = [] ∨ ∃ rest, params = (';' : Byte) :: rest

/-- The response relays the body with its length and the media type, under a
well-formed header block. -/
structure Relays (resp : Response) (body media : Bytes) : Prop where
  relaysBody : resp.responseBody = body
  contentLength : resp.getHeader "Content-Length" = decimal body.length
  contentType : resp.getHeader "Content-Type" = media
  headerBlock : ∀ order, resp.responseHeaders.IteratedAs order →
    ∃ headers : List (Bytes × Bytes), (∀ h ∈ headers, IsHeader h) ∧
      Response.generateHeaderLines order = headers.flatMap headerLine ++ [cr, lf]

namespace ReverseProxyHandler

/-! ## The header lines -/

/-- What one header line does to the media type. -/
def nextMimeType (mimeType line : Bytes) : Bytes :=
  if lit "Content-Length: " <+: line ++ [cr] then mimeType
  else if lit "Content-Type: " <+: line ++ [cr] then
    substrBetween (line ++ [cr]) 14 (findSemicolon (line ++ [cr]))
  else mimeType

/-- One iteration reads one line, and leaves its carriage return on it. -/
theorem readHeaders_line {line : Bytes} (h : line ≠ [] ∧ lf ∉ line) (fuel : Nat)
    (mimeType rest : Bytes) :
    readHeaders (fuel + 1) mimeType (IStream.ofBuffer (line ++ [cr, lf] ++ rest)) =
      readHeaders fuel (nextMimeType mimeType line) (IStream.ofBuffer rest) := by
  have hlf : lf ∉ line ++ [cr] := by
    intro hmem
    rcases List.mem_append.mp hmem with hmem | hmem
    · exact h.2 hmem
    · exact absurd (List.mem_singleton.mp hmem) (by decide)
  have hget : (IStream.ofBuffer (line ++ [cr, lf] ++ rest)).getline =
      (some (line ++ [cr]), IStream.ofBuffer rest) := by
    have := @IStream.getline_ofBuffer _ rest hlf
    simpa using this
  have hblank : line ++ [cr] ≠ lit "\r" := by
    intro heq
    exact h.1 (List.append_left_eq_self.mp heq)
  rw [readHeaders, hget]
  simp only [IStream.ofBuffer, hblank, or_false, Bool.false_eq_true, if_false, nextMimeType]
  split_ifs <;> rfl

/-- The loop reads the header lines and stops behind the blank line. -/
theorem readHeaders_lines {lines : List Bytes} (h : ∀ line ∈ lines, line ≠ [] ∧ lf ∉ line)
    (fuel : Nat) (mimeType rest : Bytes) :
    readHeaders (lines.length + (fuel + 1)) mimeType
        (IStream.ofBuffer (terminated lines ++ [cr, lf] ++ rest)) =
      (lines.foldl nextMimeType mimeType, IStream.ofBuffer rest) := by
  induction lines generalizing mimeType with
  | nil =>
    have hget : (IStream.ofBuffer (terminated [] ++ [cr, lf] ++ rest)).getline =
        (some [cr], IStream.ofBuffer rest) :=
      @IStream.getline_ofBuffer [cr] rest (by decide)
    rw [List.length_nil, Nat.zero_add, readHeaders, hget]
    exact if_pos (.inr rfl)
  | cons line lines ih =>
    obtain ⟨hline, hlines⟩ := List.forall_mem_cons.mp h
    have hfuel : (line :: lines).length + (fuel + 1) = (lines.length + (fuel + 1)) + 1 := by
      rw [List.length_cons]
      omega
    rw [hfuel, terminated_cons, List.append_assoc, List.append_assoc (line ++ [cr, lf]),
      readHeaders_line hline, ← List.append_assoc, ih hlines, List.foldl_cons]

/-- A line that is no `Content-Type` line leaves the media type. -/
theorem nextMimeType_of_not_prefix {line : Bytes} (h : ¬ lit "Content-Type: " <+: line)
    (mimeType : Bytes) : nextMimeType mimeType line = mimeType := by
  have hnot : ¬ lit "Content-Type: " <+: line ++ [cr] := by
    intro hpre
    rcases List.prefix_concat_iff.mp hpre with heq | hpre
    · have hcr : cr ∈ lit "Content-Type: " := by
        rw [heq]
        simp
      exact absurd hcr (by decide)
    · exact h hpre
  unfold nextMimeType
  rw [if_neg hnot]
  exact ite_self _

/-- `find(";")` on a `Content-Type` line. -/
theorem findSemicolon_eq {media params : Bytes} (hmedia : (';' : Byte) ∉ media)
    (hparams : params = [] ∨ ∃ rest, params = (';' : Byte) :: rest) :
    findSemicolon (lit "Content-Type: " ++ media ++ params ++ [cr]) =
      if params = [] then -1 else intOfSize (14 + media.length) := by
  have hno : (';' : Byte) ∉ lit "Content-Type: " ++ media := by
    intro hmem
    rcases List.mem_append.mp hmem with hmem | hmem
    · exact absurd hmem (by decide)
    · exact hmedia hmem
  rcases hparams with rfl | ⟨rest, rfl⟩
  · have hnone : (';' : Byte) ∉ lit "Content-Type: " ++ media ++ [] ++ [cr] := by
      rw [List.append_nil]
      intro hmem
      rcases List.mem_append.mp hmem with hmem | hmem
      · exact hno hmem
      · exact absurd (List.mem_singleton.mp hmem) (by decide)
    rw [findSemicolon, List.idxOf?_eq_none_iff.mpr hnone, if_pos rfl]
    rfl
  · rw [if_neg (List.cons_ne_nil _ _), List.append_assoc _ (_ :: rest), List.cons_append,
      findSemicolon, idxOf?_append_cons hno, List.length_append]
    rfl

/-- The conversions of the index and of the difference are exact below 2^31. -/
theorem intOfSize_sub_iff {n : Nat} (hn : 14 + n < 2 ^ 63) :
    ((intOfSize (14 + n) - 14) % 2 ^ 64).toNat = n ↔ 14 + n < 2 ^ 31 := by
  unfold intOfSize
  omega

/-- What is cut out of a `Content-Type` line is its media type exactly when the
line has parameters, and the index of its `;` is an `int`. -/
theorem substr_contentType_iff {media params : Bytes} (hmedia : (';' : Byte) ∉ media)
    (hparams : params = [] ∨ ∃ rest, params = (';' : Byte) :: rest)
    (hfits : 14 + media.length < 2 ^ 63) :
    substrBetween (lit "Content-Type: " ++ media ++ params ++ [cr]) 14
        (findSemicolon (lit "Content-Type: " ++ media ++ params ++ [cr])) = media ↔
      params ≠ [] ∧ 14 + media.length < 2 ^ 31 := by
  -- something follows the media type, at least the carriage return
  have htake : ∀ n, (media ++ (params ++ [cr])).take n = media ↔ n = media.length := by
    intro n
    constructor
    · intro h
      have hlen := congrArg List.length h
      simp only [List.length_take, List.length_append, List.length_singleton] at hlen
      omega
    · rintro rfl
      exact List.take_left
  have hdrop : (lit "Content-Type: " ++ media ++ params ++ [cr]).drop 14 =
      media ++ (params ++ [cr]) := by
    rw [List.append_assoc, List.append_assoc]
    exact List.drop_left' rfl
  rw [findSemicolon_eq hmedia hparams, substrBetween, hdrop, htake]
  by_cases hnil : params = []
  · rw [if_pos hnil]
    constructor
    · intro h
      omega
    · exact fun h => absurd hnil h.1
  · rw [if_neg hnil, and_iff_right hnil]
    exact intOfSize_sub_iff hfits

end ReverseProxyHandler

/-! ## The exchange -/

namespace UpstreamResponse

variable {r : UpstreamResponse}

theorem Readable.cr_not_mem (h : r.Readable) : cr ∉ r.statusText := by
  have hversion : cr ∉ r.version := fun hmem => h.version.2 cr hmem (by decide)
  have hdigits : cr ∉ r.statusDigits := fun hmem => absurd (h.digits cr hmem) (by decide)
  have hspace : cr ∉ lit " " := by decide
  unfold statusText
  simp only [List.mem_append, hversion, hspace, hdigits, h.reason.cr_not_mem, or_self,
    not_false_eq_true]

theorem statusCode_lt (r : UpstreamResponse) : r.statusCode < 2 ^ 32 := by
  have h₁ := UInt8.toNat_lt r.status.1
  have h₂ := UInt8.toNat_lt r.status.2.1
  have h₃ := UInt8.toNat_lt r.status.2.2
  simp only [statusCode, digitsValue, statusDigits, List.foldl_cons, List.foldl_nil]
  omega

/-- The first read is up to the end of the status line, or further. -/
theorem Readable.read_statusLine (h : r.Readable) {reads : List Bytes}
    (hreads : reads.flatten = r.message) :
    ∃ tail reads', readUntil "\r\n" reads [] = some (r.statusText ++ [cr, lf] ++ tail, reads') ∧
      tail ++ reads'.flatten = terminated r.headers ++ [cr, lf] ++ r.body := by
  have hin : lit "\r\n" <:+: [] ++ reads.flatten := by
    rw [List.nil_append, hreads]
    exact ⟨r.statusText, _, rfl⟩
  obtain ⟨buffer, reads', hrun, hdelim, hall⟩ := readUntil_some reads [] hin
  rw [List.nil_append, hreads] at hall
  have hfirst : NoneBefore [cr, lf] r.statusText.length
      (r.statusText ++ [cr, lf] ++ (terminated r.headers ++ [cr, lf] ++ r.body)) := by
    rw [List.append_assoc]
    exact noneBefore_word h.cr_not_mem
  obtain ⟨tail, rfl, htail⟩ := prefix_of_infix hall hdelim hfirst (by simp [lit])
  exact ⟨tail, reads', hrun, htail⟩

/-- The second one is up to the end of the header block, or further. -/
theorem Readable.read_headers (h : r.Readable) {buffer : Bytes} {reads : List Bytes}
    (hreads : buffer ++ reads.flatten = terminated r.headers ++ [cr, lf] ++ r.body) :
    ∃ tail reads', readUntil "\r\n\r\n" reads buffer =
        some (terminated r.headers ++ [cr, lf] ++ tail, reads') ∧
      tail ++ reads'.flatten = r.body := by
  obtain ⟨hne, hlines⟩ := h.headers
  have hin : lit "\r\n\r\n" <:+: buffer ++ reads.flatten := by
    rw [hreads, terminated_eq_joinLines hne]
    exact ⟨joinLines r.headers, r.body, by simp [lit]⟩
  obtain ⟨buffer', reads', hrun, hdelim, hall⟩ := readUntil_some reads buffer hin
  rw [hreads] at hall
  obtain ⟨tail, rfl, htail⟩ := prefix_of_infix hall hdelim (noneBefore_blank_of_lf hlines r.body) (by
    simp only [lit, List.length_append]
    simp
    omega)
  exact ⟨tail, reads', hrun, htail⟩

/-- The status line is extracted piece by piece. -/
theorem Readable.extract (h : r.Readable) (tail : Bytes) :
    ∃ stream stream' line,
      (IStream.ofBuffer (r.statusText ++ [cr, lf] ++ tail)).extractWord =
        (some r.version, stream) ∧
      stream.extractUnsigned = (some r.statusCode, stream') ∧
      stream'.getline = (some line, IStream.ofBuffer tail) := by
  have hlf : lf ∉ (' ' : Byte) :: (r.reason ++ [cr]) := by
    intro hmem
    rcases List.mem_cons.mp hmem with hmem | hmem
    · exact absurd hmem (by decide)
    · rcases List.mem_append.mp hmem with hmem | hmem
      · exact h.reason.lf_not_mem hmem
      · exact absurd (List.mem_singleton.mp hmem) (by decide)
  refine ⟨IStream.ofBuffer ((' ' : Byte) :: r.statusDigits ++
      (' ' : Byte) :: (r.reason ++ [cr, lf] ++ tail)),
    IStream.ofBuffer ((' ' : Byte) :: (r.reason ++ [cr, lf] ++ tail)),
    (' ' : Byte) :: (r.reason ++ [cr]), ?_, ?_, ?_⟩
  · have := @IStream.extractWord_ofBuffer _ (r.statusDigits ++ (' ' : Byte) ::
      (r.reason ++ [cr, lf] ++ tail)) _ h.version.1 h.version.2 (show IsSpace ' ' by decide)
    simpa [statusText, lit] using this
  · exact IStream.extractUnsigned_ofBuffer (by decide) (List.cons_ne_nil _ _) h.digits
      r.statusCode_lt (by decide)
  · have := @IStream.getline_ofBuffer _ tail hlf
    simpa using this

end UpstreamResponse

/-- **The exchange does not depend on how the response is split into reads.** -/
theorem ReverseProxyHandler.sendGetRequest_readable {r : UpstreamResponse} (h : r.Readable)
    {reads : List Bytes} (hreads : reads.flatten = r.message) {handler : ReverseProxyHandler}
    {up : Upstream} {host path : Bytes}
    (hanswer : up.answer host handler.portNum (requestText host path) = .ok reads) :
    handler.sendGetRequest up host path = .ok (r.body,
      { handler with mimeType := r.headers.foldl nextMimeType handler.mimeType }) := by
  obtain ⟨tail, reads₁, hread₁, htail⟩ := h.read_statusLine hreads
  obtain ⟨stream, stream', line, hword, hnumber, hline⟩ := h.extract tail
  obtain ⟨rest, reads₂, hread₂, hbody⟩ := h.read_headers htail
  obtain ⟨fuel, hfuel⟩ : ∃ fuel, (terminated r.headers ++ [cr, lf] ++ rest).length + 1 =
      r.headers.length + (fuel + 1) := by
    have hle := length_le_terminated r.headers
    refine ⟨(terminated r.headers ++ [cr, lf] ++ rest).length - r.headers.length, ?_⟩
    rw [List.append_assoc, List.length_append]
    omega
  have hheaders := readHeaders_lines h.headers.2 fuel handler.mimeType rest
  rw [← hfuel] at hheaders
  unfold sendGetRequest
  rw [hanswer]
  simp only [bind, Except.bind, hread₁, hword, hnumber, hline]
  simp only [IStream.ofBuffer] at hheaders ⊢
  rw [hread₂]
  dsimp only
  rw [hheaders, hbody]
  simp only [Option.getD_some, h.noRedirect, decide_false, Bool.or_false]
  rfl

/-! ## The response of the proxy -/

/-- The media type after the header lines is cut out of the last `Content-Type`
line. -/
theorem LastContentType.mimeType {headers : List Bytes} {media params : Bytes}
    (h : LastContentType headers media params) (mimeType : Bytes) :
    headers.foldl ReverseProxyHandler.nextMimeType mimeType =
      ReverseProxyHandler.substrBetween (lit "Content-Type: " ++ media ++ params ++ [cr]) 14
        (ReverseProxyHandler.findSemicolon (lit "Content-Type: " ++ media ++ params ++ [cr])) := by
  obtain ⟨before, after, hheaders, hafter⟩ := h.line
  clear h
  subst hheaders
  have hkeep : ∀ mimeType, after.foldl ReverseProxyHandler.nextMimeType mimeType = mimeType := by
    intro mimeType
    induction after with
    | nil => rfl
    | cons line after ih =>
      obtain ⟨hline, hafter⟩ := List.forall_mem_cons.mp hafter
      rw [List.foldl_cons, ReverseProxyHandler.nextMimeType_of_not_prefix hline, ih hafter]
  rw [List.foldl_append, List.foldl_cons, hkeep, ReverseProxyHandler.nextMimeType, if_neg, if_pos]
  · rw [List.append_assoc, List.append_assoc]
    exact List.prefix_append _ _
  · rintro ⟨rest, hrest⟩
    simp [lit] at hrest

/-- The constructor leaves `redirect` as it was. -/
theorem ReverseProxyHandler.configure_redirect {child : NginxConfig} {location : Bytes}
    {handler handler' : ReverseProxyHandler}
    (h : configure child location handler = some handler') :
    handler'.redirect = handler.redirect := by
  induction child generalizing location handler with
  | nil =>
    obtain rfl := Option.some.inj h
    rfl
  | cons s child ih =>
    obtain ⟨keyword, -, h⟩ := Option.bind_eq_some_iff.mp h
    split_ifs at h
    · obtain ⟨_, -, h⟩ := Option.bind_eq_some_iff.mp h
      exact ih h
    · obtain ⟨_, -, h⟩ := Option.bind_eq_some_iff.mp h
      exact (ih h).trans rfl
    · obtain ⟨_, -, h⟩ := Option.bind_eq_some_iff.mp h
      exact (ih h).trans rfl
    · exact ih h

/-- The response that the proxy makes of a body and a media type. -/
def relayed (mimeType body : Bytes) : Response :=
  ((Response.mk' 200 body).setHeader "Content-Type" mimeType).setHeader "Content-Length"
    (decimal body.length)

theorem clean_relayed {mimeType : Bytes} (h : OneLine mimeType) (body : Bytes) :
    (relayed mimeType body).Clean :=
  ((Response.clean_mk' 200 body).setHeader (isHeader_contentType h)).setHeader
    (isHeader_of_name (by decide) (oneLine_of_isDigit (decimal_spec _).2.1))

theorem relayed_contentType (mimeType body : Bytes) :
    (relayed mimeType body).getHeader "Content-Type" = mimeType := by
  rw [relayed, Response.getHeader_setHeader_of_ne _ (by decide), Response.getHeader_setHeader]

theorem relayed_contentLength (mimeType body : Bytes) :
    (relayed mimeType body).getHeader "Content-Length" = decimal body.length :=
  Response.getHeader_setHeader _ _ _

/-- Only the media type can go wrong. -/
theorem relays_relayed_iff {media : Bytes} (h : OneLine media) (mimeType body : Bytes) :
    Relays (relayed mimeType body) body media ↔ mimeType = media := by
  constructor
  · exact fun hrelays => (relayed_contentType mimeType body).symm.trans hrelays.contentType
  · rintro rfl
    exact ⟨rfl, relayed_contentLength _ body, relayed_contentType _ body,
      fun _ horder => (clean_relayed h body).headerBlock horder⟩

/-- The media type is part of a line. -/
theorem LastContentType.oneLine {headers : List Bytes} {media params : Bytes}
    (h : LastContentType headers media params) (hlines : ∀ line ∈ headers, IsLine line) :
    OneLine media := by
  obtain ⟨before, after, hheaders, -⟩ := h.line
  have hmem : lit "Content-Type: " ++ media ++ params ∈ headers := by
    rw [hheaders]
    exact List.mem_append_right _ List.mem_cons_self
  have hline := (hlines _ hmem).2
  exact (oneLine_append.mp (oneLine_append.mp hline).1).2

/-- **The proxy relays the upstream message faithfully exactly when the last
`Content-Type` line has parameters**, whose `;` is within the range of an
`int`. -/
theorem relays_iff {r : UpstreamResponse} (h : r.WellFormed) {media params : Bytes}
    (hlast : LastContentType r.headers media params) {reads : List Bytes}
    (hreads : reads.flatten = r.message) {up : Upstream} {config : Option NginxConfig}
    {handler : ReverseProxyHandler}
    (hmake : ReverseProxyHandler.mk' up.stalePort config = some handler) {req : Request}
    {host path : Bytes} (hfind : handler.findProxy req.uri = .ok (host, path))
    (hanswer : up.answer (cStr host) handler.portNum
      (ReverseProxyHandler.requestText (cStr host) (cStr path)) = .ok reads) (beyond : Bytes) :
    ∃ resp, handler.handleRequest up beyond req = .ok resp ∧
      (Relays resp r.body media ↔ params ≠ [] ∧ 14 + media.length < 2 ^ 31) := by
  have hredirect : handler.redirect = false := by
    obtain ⟨child, -, hconf⟩ := Option.bind_eq_some_iff.mp hmake
    exact ReverseProxyHandler.configure_redirect hconf
  have hexchange := ReverseProxyHandler.sendGetRequest_readable h.readable hreads hanswer
  have hfits : 14 + media.length < 2 ^ 63 := by
    obtain ⟨before, after, hheaders, -⟩ := hlast.line
    have hlen := h.fits
    have hname : (lit "Content-Type: ").length = 14 := rfl
    rw [UpstreamResponse.message, hheaders] at hlen
    simp only [terminated, List.flatMap_append, List.flatMap_cons, List.length_append] at hlen
    omega
  have hrun : handler.handleRequest up beyond req =
      .ok (relayed (r.headers.foldl ReverseProxyHandler.nextMimeType handler.mimeType) r.body) := by
    unfold ReverseProxyHandler.handleRequest ReverseProxyHandler.constructGetRequest
    rw [hfind]
    simp only [bind, Except.bind, hexchange, hredirect]
    rfl
  refine ⟨_, hrun, ?_⟩
  rw [relays_relayed_iff (hlast.oneLine h.headers.2), hlast.mimeType handler.mimeType]
  exact ReverseProxyHandler.substr_contentType_iff hlast.media hlast.params hfits

/-- A response with the given parameters behind its media type. -/
def htmlResponse (params : Bytes) : UpstreamResponse :=
  ⟨"HTTP/1.1", ('2', '0', '0'), "OK", [lit "Content-Type: " ++ lit "text/html" ++ params], "hi"⟩

/-- An upstream host that gives the response in two reads. -/
def htmlUpstream (params : Bytes) : Upstream where
  answer _ _ _ := .ok [(htmlResponse params).message.take 16, (htmlResponse params).message.drop 16]
  stalePort := 0
  staleStatus := 0

theorem lastContentType_html {params : Bytes}
    (h : params = [] ∨ ∃ rest, params = (';' : Byte) :: rest) :
    LastContentType (htmlResponse params).headers "text/html" params where
  line := ⟨[], [], rfl, by simp⟩
  media := by decide
  params := h

theorem wellFormed_html {params : Bytes} (h : OneLine params)
    (hlen : (htmlResponse params).message.length < 2 ^ 63) : (htmlResponse params).WellFormed where
  version := show lit "HTTP/1.1" ≠ [] ∧ ∀ d ∈ lit "HTTP/1.1", ¬ IsSpace d by decide
  digits := show ∀ d ∈ lit "200", IsDigit d by decide
  noRedirect := show digitsValue (lit "200") ≠ 301 ∧ digitsValue (lit "200") ≠ 302 by decide
  reason := show OneLine (lit "OK") by decide
  headers := by
    refine ⟨List.cons_ne_nil _ _, fun line hline => ?_⟩
    obtain rfl := List.mem_singleton.mp hline
    have hhtml : OneLine (lit "Content-Type: " ++ lit "text/html") := by decide
    exact ⟨by simp [lit], hhtml.append h⟩
  fits := hlen

theorem flatten_html (params : Bytes) :
    [(htmlResponse params).message.take 16, (htmlResponse params).message.drop 16].flatten =
      (htmlResponse params).message := by
  simp only [List.flatten_cons, List.flatten_nil, List.append_nil]
  exact List.take_append_drop 16 _

/-- With a character set the media type is relayed. -/
theorem relays_charset :
    ∃ handler resp, ReverseProxyHandler.mk' 0 (some (proxySettings "/a" "h")) = some handler ∧
      handler.handleRequest (htmlUpstream "; charset=utf-8") []
          (Request.mk' [] "GET /a HTTP/1.1\r\n\r\n") = .ok resp ∧
      Relays resp "hi" "text/html" := by
  have hmake : ReverseProxyHandler.mk' (htmlUpstream "; charset=utf-8").stalePort
    (some (proxySettings "/a" "h")) = some _ := rfl
  have hfind : ReverseProxyHandler.findProxy ⟨⟨[⟨"/a", "h"⟩], by simp⟩, "", 80, false⟩
    (Request.mk' [] "GET /a HTTP/1.1\r\n\r\n").uri = .ok ("h", "/") := rfl
  obtain ⟨resp, hrun, hiff⟩ := relays_iff (wellFormed_html (by decide) (by decide))
    (lastContentType_html (.inr ⟨_, rfl⟩)) (flatten_html _) hmake hfind rfl []
  exact ⟨_, resp, rfl, hrun, hiff.mpr ⟨by decide, by decide⟩⟩

/-- Without parameters the carriage return is relayed as well. -/
theorem relays_no_params :
    (htmlResponse "").WellFormed ∧ LastContentType (htmlResponse "").headers "text/html" "" ∧
      ∃ handler resp, ReverseProxyHandler.mk' 0 (some (proxySettings "/a" "h")) = some handler ∧
        handler.handleRequest (htmlUpstream "") []
            (Request.mk' [] "GET /a HTTP/1.1\r\n\r\n") = .ok resp ∧
        resp.getHeader "Content-Type" = "text/html\r" ∧ ¬ Relays resp "hi" "text/html" := by
  refine ⟨wellFormed_html (by decide) (by decide), lastContentType_html (.inl rfl), _, _, rfl, rfl,
    rfl, fun h => ?_⟩
  have htype : lit "text/html\r" = lit "text/html" := h.contentType
  exact absurd htype (by decide)

end GittyUp
