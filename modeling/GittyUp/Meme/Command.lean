import GittyUp.Meme.Store
import Mathlib.Logic.Function.Basic

/-!
# What a request asks of the meme store

The meme store is a map from ids to memes. `command` reads from a request, with
the handler's own checks, what it asks of this map; `MemeMap.apply` is the
effect. The lemmas `handleRequest_*` say which statements the handler issues
for each command.
-/

namespace GittyUp

open Lib Regex

/-! ## The abstract store -/

/-- A meme, with the number of its views. -/
@[ext] structure Meme where
  texts : MemeTexts
  views : Nat
  deriving DecidableEq

/-- The store: the meme of every id that is present. -/
abbrev MemeMap := Bytes → Option Meme

/-- What a request asks of the store. -/
inductive MemeCommand where
  | add (id : Bytes) (texts : MemeTexts)
  | replace (id : Bytes) (texts : MemeTexts)
  | remove (id : Bytes)
  | view (id : Bytes)
  | other
  deriving DecidableEq

/-- The id that is drawn for a new meme. -/
def MemeCommand.drawn : MemeCommand → Option Bytes
  | .add id _ => some id
  | _ => none

/-- The effect of a command. -/
def MemeMap.apply (m : MemeMap) : MemeCommand → MemeMap
  | .add id texts => Function.update m id (some ⟨texts, 0⟩)
  | .replace id texts => Function.update m id ((m id).map fun meme => { meme with texts := texts })
  | .remove id => Function.update m id none
  | .view id =>
    Function.update m id ((m id).map fun meme => { meme with views := meme.views + 1 })
  | .other => m

/-- The response to a command that concerns one meme. -/
def MemeMap.answer (m : MemeMap) : MemeCommand → Option Response
  | .add id _ => some (typedResponse 201 (idBody id) "application/json")
  | .replace id _ => some (typedResponse 200 (idBody id) "application/json")
  | .remove id => some (typedResponse 200 (idBody id) "application/json")
  | .view id =>
    match m id with
    | some meme => some (typedResponse 200 (memeBody meme.texts) "application/json")
    | none => some (typedResponse 404 "The requested file could not be found!\n" "text/plain")
  | .other => none

/-! ## The command of a request -/

/-- The texts of an accepted body. -/
def acceptedTexts (body : Bytes) : Option MemeTexts :=
  match bodyCheck body with
  | .ok texts => texts
  | .error _ => none

/-- What a request asks of the store, if its UUID is `uuid`. -/
def command (uuid : Bytes) (req : Request) : MemeCommand :=
  if req.method = "POST" then
    match acceptedTexts req.requestBody with
    | some texts => .add uuid texts
    | none => .other
  else if req.method = "PUT" then
    match checkId (checkUri req.uri), acceptedTexts req.requestBody with
    | true, some texts => .replace (checkUri req.uri) texts
    | _, _ => .other
  else if req.method = "DELETE" then
    if checkId (checkUri req.uri) then .remove (checkUri req.uri) else .other
  else if req.method = "GET" then
    match getTarget (checkUri req.uri) with
    | .byId id => .view id
    | _ => .other
  else .other

/-- A GET that lists memes or searches for some. -/
def IsListing (req : Request) : Prop :=
  req.method = "GET" ∧ (getTarget (checkUri req.uri) = .list ∨
    ∃ query, getTarget (checkUri req.uri) = .search query)

/-! ## Arrivals -/

/-- The text of a UUID: lower-case hexadecimal digits in groups of 8, 4, 4, 4
and 12, with hyphens between them. -/
def IsUuid (s : Bytes) : Prop :=
  s.length = 36 ∧ ∀ p ∈ s.zipIdx,
    if p.2 = 8 ∨ p.2 = 13 ∨ p.2 = 18 ∨ p.2 = 23 then p.1 = '-'
    else IsDigit p.1 ∨ ('a' ≤ p.1 ∧ p.1 ≤ 'f')

instance : DecidablePred IsUuid := fun _ => inferInstanceAs (Decidable (_ ∧ _))

theorem IsUuid.nulFree {s : Bytes} (h : IsUuid s) : NulFree s := by
  intro h0
  obtain ⟨i, hi⟩ := List.mem_iff_getElem?.mp h0
  have hp := h.2 (0, i) (List.mk_mem_zipIdx_iff_getElem?.mpr hi)
  dsimp only at hp
  split_ifs at hp
  · exact absurd hp (by decide)
  · exact absurd hp (by decide)

/-- A request, with the UUID that is drawn while it is served. -/
structure Arrival where
  uuid : Bytes
  request : Request

/-- What an arriving request asks of the store. -/
def Arrival.command (r : Arrival) : MemeCommand := GittyUp.command r.uuid r.request

/-- How an arriving request is served. -/
def Arrival.handle (r : Arrival) : MemeProg Response := handleRequest r.uuid r.request

/-! ## What the checks guarantee -/

/-- Non-empty texts of caption characters. -/
def MemeTexts.Proper (texts : MemeTexts) : Prop :=
  ∀ s ∈ [texts.memeTemplate, texts.topCaption, texts.bottomCaption],
    s ≠ [] ∧ ∀ c ∈ s, IsCaptionChar c

theorem nulFree_of_captionChars {s : Bytes} (h : ∀ c ∈ s, IsCaptionChar c) : NulFree s :=
  fun h0 => absurd (h 0 h0) (by decide)

theorem MemeTexts.Proper.cStr_eq {texts : MemeTexts} (h : texts.Proper) : texts.cStr = texts := by
  simp only [MemeTexts.Proper, List.forall_mem_cons] at h
  obtain ⟨⟨-, ht⟩, ⟨-, ha⟩, ⟨-, hb⟩, -⟩ := h
  simp only [MemeTexts.cStr, cStr_of_nulFree (nulFree_of_captionChars ht),
    cStr_of_nulFree (nulFree_of_captionChars ha), cStr_of_nulFree (nulFree_of_captionChars hb)]

/-- The value that an iteration of `body_check` reads. -/
theorem str_bodyParamRegex {body : Bytes} {m : Match Byte} (h : m ∈ bodyParamRegex.findAll body) :
    ∀ c ∈ m.str 2, IsCaptionChar c := by
  rcases (finds_of_mem_findAll h).str_group 1 with hnil | ⟨s, pre, post, hs, hacc, -⟩
  · rw [hnil]
    simp
  · have hmem : ((2 : Nat), s) ∈ [(1, plus true word), (2, plus true captionClass)] := hs
    obtain rfl : s = plus true captionClass := by simpa using hmem
    intro c hc
    simpa using (accepts_plus_char.mp hacc).2 c hc

/-- The loop of `body_check` collects caption characters only. -/
theorem foldl_bodyCheckStep {iters : List (Match Byte)}
    (h : ∀ m ∈ iters, ∀ c ∈ m.str 2, IsCaptionChar c) {texts : MemeTexts}
    (htexts : ∀ s ∈ [texts.memeTemplate, texts.topCaption, texts.bottomCaption],
      ∀ c ∈ s, IsCaptionChar c) :
    ∀ s ∈ [(iters.foldl bodyCheckStep texts).memeTemplate,
        (iters.foldl bodyCheckStep texts).topCaption,
        (iters.foldl bodyCheckStep texts).bottomCaption], ∀ c ∈ s, IsCaptionChar c := by
  induction iters generalizing texts with
  | nil => exact htexts
  | cons m iters ih =>
    obtain ⟨hm, hiters⟩ := List.forall_mem_cons.mp h
    refine ih hiters ?_
    simp only [List.forall_mem_cons] at htexts ⊢
    obtain ⟨ht, ha, hb, -⟩ := htexts
    unfold bodyCheckStep
    dsimp only
    split_ifs
    · exact ⟨hm, ha, hb, by simp⟩
    · exact ⟨ht, hm, hb, by simp⟩
    · exact ⟨ht, ha, hm, by simp⟩
    · exact ⟨ht, ha, hb, by simp⟩

theorem ne_nil_of_search_captionRegex {s : Bytes} (h : (captionRegex.search s).isSome = true) :
    s ≠ [] := by
  obtain ⟨u, w, v, rfl, hacc⟩ := search_isSome_iff.mp h
  have := (accepts_plus_char.mp hacc).1
  simp [this]

theorem ne_nil_of_search_templateRegex {s : Bytes} (h : (templateRegex.search s).isSome = true) :
    s ≠ [] := by
  obtain ⟨u, w, v, rfl, w₁, w₂, rfl, hacc, -⟩ := search_isSome_iff.mp h
  have := (accepts_plus_char.mp hacc).1
  simp [this]

/-- **An accepted body gives proper texts.** -/
theorem acceptedTexts_proper {body : Bytes} {texts : MemeTexts}
    (h : acceptedTexts body = some texts) : texts.Proper := by
  unfold acceptedTexts bodyCheck at h
  cases hdec : uriDecode body with
  | error e =>
    rw [hdec] at h
    contradiction
  | ok decoded =>
    rw [hdec] at h
    have hchars := @foldl_bodyCheckStep (bodyParamRegex.findAll decoded)
      (fun m hm => str_bodyParamRegex hm) ⟨"", "", ""⟩ (by simp [lit])
    simp only [bind, Except.bind, pure, Except.pure] at h
    split_ifs at h with ht ha hb
    · obtain rfl := Option.some.inj h
      rw [Option.isNone_iff_eq_none, ← ne_eq, ← Option.isSome_iff_ne_none] at ht ha hb
      simp only [MemeTexts.Proper, List.forall_mem_cons] at hchars ⊢
      exact ⟨⟨ne_nil_of_search_templateRegex ht, hchars.1⟩,
        ⟨ne_nil_of_search_captionRegex ha, hchars.2.1⟩,
        ⟨ne_nil_of_search_captionRegex hb, hchars.2.2.1⟩, by simp⟩

/-- What `check_uri` returns is part of the URI. -/
theorem nulFree_checkUri {uri : Bytes} (h : NulFree uri) : NulFree (checkUri uri) := by
  unfold checkUri
  split
  · exact fun h0 => List.not_mem_nil h0
  · next m hm =>
    rcases (finds_of_search hm).str_group 0 with hnil | ⟨s, pre, post, -, -, htext⟩
    · rw [hnil]
      exact fun h0 => List.not_mem_nil h0
    · intro h0
      refine h ?_
      rw [htext]
      simp [show (0 : Byte) ∈ m.str 1 from h0]

/-- The id that a GET by id asks for is what `check_uri` returned. -/
theorem getTarget_byId {check id : Bytes} (h : getTarget check = .byId id) : id = check := by
  unfold getTarget at h
  split_ifs at h
  exact (GetTarget.byId.inj h).symm

/-- An id that `check_id` accepts consists of hexadecimal digits and hyphens. -/
theorem chars_of_checkId {id : Bytes} (h : checkId id = true) :
    ∀ c ∈ id, IsHexDigit c ∨ c = '-' := by
  have hwithin : checkIdRegex.Within fun c => IsHexDigit c ∨ c = '-' := by
    have hhex : hexClass.Within fun c => IsHexDigit c ∨ c = '-' :=
      fun c hc => .inl (of_decide_eq_true hc)
    have hhyphen : (literal (lit "-")).Within fun c => IsHexDigit c ∨ c = '-' :=
      ⟨fun c hc => .inr (of_decide_eq_true hc), trivial⟩
    simp only [checkIdRegex, concat, times, Within, hhex, hhyphen, and_self]
  exact hwithin.of_accepts (accepts_of_anchored [_, _, _, _, _, _, _, _, _] h)

theorem nulFree_of_checkId {id : Bytes} (h : checkId id = true) : NulFree id :=
  fun h0 => absurd (chars_of_checkId h 0 h0) (by decide)

/-- What a request has checked, or drawn, when it comes to a command. -/
def MemeCommand.Proper : MemeCommand → Prop
  | .add id texts | .replace id texts => NulFree id ∧ texts.Proper
  | .remove id => NulFree id
  | .view _ | .other => True

/-- The commands that a request may come to, with what it has checked. -/
inductive CommandOf (uuid : Bytes) (req : Request) : MemeCommand → Prop
  | add {texts : MemeTexts} : req.method = "POST" → acceptedTexts req.requestBody = some texts →
      CommandOf uuid req (.add uuid texts)
  | replace {texts : MemeTexts} : req.method = "PUT" → checkId (checkUri req.uri) = true →
      acceptedTexts req.requestBody = some texts →
      CommandOf uuid req (.replace (checkUri req.uri) texts)
  | remove : req.method = "DELETE" → checkId (checkUri req.uri) = true →
      CommandOf uuid req (.remove (checkUri req.uri))
  | view : req.method = "GET" → CommandOf uuid req (.view (checkUri req.uri))
  | other : CommandOf uuid req .other

theorem command_cases (uuid : Bytes) (req : Request) : CommandOf uuid req (command uuid req) := by
  unfold command
  split_ifs with hpost hput hdelete hid hget
  · cases haccepted : acceptedTexts req.requestBody with
    | none => exact .other
    | some texts => exact .add hpost haccepted
  · cases hid : checkId (checkUri req.uri) with
    | false => exact .other
    | true =>
      cases haccepted : acceptedTexts req.requestBody with
      | none => exact .other
      | some texts => exact .replace hput hid haccepted
  · exact .remove hdelete hid
  · exact .other
  · cases htarget : getTarget (checkUri req.uri) with
    | byId id =>
      obtain rfl := getTarget_byId htarget
      exact .view hget
    | _ => exact .other
  · exact .other

theorem command_proper {uuid : Bytes} {req : Request} (huuid : NulFree uuid) :
    (command uuid req).Proper := by
  have hcases := command_cases uuid req
  generalize command uuid req = asked at hcases
  cases hcases with
  | add _ haccepted => exact ⟨huuid, acceptedTexts_proper haccepted⟩
  | replace _ hid haccepted => exact ⟨nulFree_of_checkId hid, acceptedTexts_proper haccepted⟩
  | remove _ hid => exact nulFree_of_checkId hid
  | view => trivial
  | other => trivial

/-! ## The program of each command -/

variable {uuid : Bytes} {req : Request}

/-- The response after `INSERT`. -/
def createReply (id : Bytes) (done : Bool) : Response :=
  if done then typedResponse 201 (idBody id) "application/json"
  else typedResponse 500 "An error occurred while trying to create the provided meme!\n"
    "text/plain"

/-- The response after the `UPDATE` of a PUT. -/
def updateReply (id : Bytes) (done : Bool) : Response :=
  if done then typedResponse 200 (idBody id) "application/json"
  else typedResponse 500 "An error occurred while trying to update the provided meme!\n"
    "text/plain"

/-- The response after `DELETE`. -/
def deleteReply (id : Bytes) (done : Bool) : Response :=
  if done then typedResponse 200 (idBody id) "application/json"
  else typedResponse 500 "An error occurred while trying to delete the provided meme!\n"
    "text/plain"

/-- The program of `get_meme_by_id`. -/
def viewProgram (id : Bytes) : MemeProg Response :=
  .call (MemeStatement.byId id).statement fun reply =>
    countView (reply.rows.map fun row => row.map cStr)

theorem getMemeById_eq (id : Bytes) : getMemeById id = viewProgram id := rfl

theorem timesViewed_row {r : MemeRecord} {z : Int} (h : stoi r.views = .ok z) :
    timesViewed r.row = .ok z := by
  unfold timesViewed
  rw [show r.row[4]? = some r.views from rfl]
  dsimp only
  rw [h]

/-- What a GET does once it has the row of a record. -/
theorem countView_row {r : MemeRecord} {z : Int} (h : stoi r.views = .ok z) :
    countView [r.row] = .call (MemeStatement.setViews r.id (intText (z + 1))).statement fun _ =>
      .ret (memeResponse r.texts) := by
  have htimes := timesViewed_row h
  unfold countView
  unfold MemeRecord.row at htimes ⊢
  dsimp only
  rw [htimes]
  rfl

/-- A meme with proper texts is not corrupted. -/
theorem memeResponse_proper {texts : MemeTexts} (h : texts.Proper) :
    memeResponse texts = typedResponse 200 (memeBody texts) "application/json" := by
  simp only [MemeTexts.Proper, List.forall_mem_cons] at h
  unfold memeResponse
  rw [if_neg (by simp [h.1.1, h.2.1.1, h.2.2.1.1])]
  rfl

/-- The program that a command stands for, if it concerns one meme. -/
def MemeCommand.program : MemeCommand → Option (MemeProg Response)
  | .add id texts => some (.call (MemeStatement.insert id texts).statement fun reply =>
      .ret (createReply id reply.done))
  | .replace id texts => some (.call (MemeStatement.replace id texts).statement fun reply =>
      .ret (updateReply id reply.done))
  | .remove id => some (.call (MemeStatement.remove id).statement fun reply =>
      .ret (deleteReply id reply.done))
  | .view id => some (viewProgram id)
  | .other => none

/-! ## How a request ends -/

/-- The response to a GET of a meme one of whose texts is empty. -/
def corruptedResponse : Response :=
  typedResponse 400 "The provided meme has been corrupted!" "text/plain"

/-- The program has ended, without this response, and with no exception but that
of a failed decoding. -/
inductive EndsWell : MemeProg Response → Prop
  | answered {response : Response} : response ≠ corruptedResponse → EndsWell (.ret response)
  | thrown : EndsWell (.abort (.exception (.runtimeError "stream decode failure")))

theorem endsWell_typedResponse {status : Nat} {body contentType : Bytes}
    (h : status ≠ 400 ∨ body ≠ lit "The provided meme has been corrupted!") :
    EndsWell (.ret (typedResponse status body contentType)) := by
  refine .answered fun heq => ?_
  rcases h with h | h
  · exact h (congrArg Response.statusCode heq)
  · exact h (congrArg Response.responseBody heq)

/-- The replies to requests that write. -/
theorem endsWell_reply (id : Bytes) (done : Bool) :
    EndsWell (.ret (createReply id done)) ∧ EndsWell (.ret (updateReply id done)) ∧
      EndsWell (.ret (deleteReply id done)) := by
  have hstatus : (200 : Nat) ≠ 400 ∧ (201 : Nat) ≠ 400 ∧ (500 : Nat) ≠ 400 := by decide
  obtain ⟨hok, hcreated, herror⟩ := hstatus
  cases done
  · exact ⟨endsWell_typedResponse (.inl herror), endsWell_typedResponse (.inl herror),
      endsWell_typedResponse (.inl herror)⟩
  · exact ⟨endsWell_typedResponse (.inl hcreated), endsWell_typedResponse (.inl hok),
      endsWell_typedResponse (.inl hok)⟩

theorem bodyCheck_error {body : Bytes} {e : StdException} (h : bodyCheck body = .error e) :
    e = .runtimeError "stream decode failure" := by
  unfold bodyCheck at h
  cases hdecode : uriDecode body with
  | error e' =>
    rw [hdecode] at h
    obtain rfl := Except.error.inj h
    exact uriDecode_error hdecode
  | ok text =>
    rw [hdecode] at h
    simp only [bind, Except.bind, pure, Except.pure] at h
    split_ifs at h

/-! ## Which program serves a request -/

/-- The program of a request that asks for nothing or for a list. -/
inductive OnlyLists : MemeProg Response → Prop
  | ended {p : MemeProg Response} : EndsWell p → OnlyLists p
  | list : OnlyLists (.call MemeStatement.all.statement fun reply =>
      memeArray (reply.rows.map fun row => row.map cStr))
  | search (query : Bytes) : OnlyLists (.call (MemeStatement.search query).statement fun reply =>
      memeArray (reply.rows.map fun row => row.map cStr))

/-- The statements of such a request. -/
def IsListingStatement (q : SqlStatement) : Prop :=
  q = MemeStatement.all.statement ∨ ∃ query, q = (MemeStatement.search query).statement

theorem issues_memeArray (P : SqlStatement → Prop) (rows : List Row) :
    (memeArray rows).Issues P := by
  unfold memeArray
  dsimp only
  split <;> trivial

theorem OnlyLists.issues {p : MemeProg Response} (h : OnlyLists p) :
    p.Issues IsListingStatement := by
  cases h with
  | ended h => cases h <;> trivial
  | list => exact ⟨.inl rfl, fun reply => issues_memeArray _ _⟩
  | search query => exact ⟨.inr ⟨query, rfl⟩, fun reply => issues_memeArray _ _⟩

/-- A statement whose result code alone decides the response. -/
theorem stepDone_bind {st : SqlStatement} {k : Bool → MemeProg Response} {f : Bool → Response}
    (htrue : k true = .ret (f true)) (hfalse : k false = .ret (f false)) :
    (Prog.call st fun reply => .ret (f reply.done)) = stepDone st >>= k := by
  refine congrArg (Prog.call st) (funext fun reply => ?_)
  show .ret (f reply.done) = k reply.done
  cases reply.done
  · exact hfalse.symm
  · exact htrue.symm

/-- **Which program serves a request**: the one of its command, and without a
command one that only lists or searches. -/
theorem handleRequest_command (uuid : Bytes) (req : Request) :
    (command uuid req).program = some (handleRequest uuid req) ∨
      (command uuid req = .other ∧ OnlyLists (handleRequest uuid req)) := by
  have hthrown : ∀ {e : StdException}, e = .runtimeError "stream decode failure" →
      OnlyLists (.abort (.exception e)) := by
    rintro _ rfl
    exact .ended .thrown
  unfold command handleRequest
  split_ifs with hpost hput hdelete hid hget
  · unfold acceptedTexts createMeme
    cases hbody : bodyCheck req.requestBody with
    | error e => exact .inr ⟨rfl, hthrown (bodyCheck_error hbody)⟩
    | ok params =>
      cases params with
      | none => exact .inr ⟨rfl, .ended (endsWell_typedResponse (.inr (by decide)))⟩
      | some texts =>
        simp only [liftExcept, Prog.ret_bind, generateNewMeme, insertRecord]
        exact .inl (congrArg some (stepDone_bind rfl rfl))
  · unfold acceptedTexts updateMeme
    cases hbody : bodyCheck req.requestBody with
    | error e =>
      cases checkId (checkUri req.uri) <;> exact .inr ⟨rfl, hthrown (bodyCheck_error hbody)⟩
    | ok params =>
      have hinvalid : OnlyLists (.ret (typedResponse 400
          "The provided meme update request is invalid!\n" "text/plain")) :=
        .ended (endsWell_typedResponse (.inr (by decide)))
      cases params with
      | none => cases checkId (checkUri req.uri) <;> exact .inr ⟨rfl, hinvalid⟩
      | some texts =>
        simp only [liftExcept, Prog.ret_bind, updateRecord]
        cases checkId (checkUri req.uri) with
        | true => exact .inl (congrArg some (stepDone_bind rfl rfl))
        | false => exact .inr ⟨rfl, hinvalid⟩
  · unfold deleteMeme
    rw [if_pos hid]
    exact .inl (congrArg some (stepDone_bind rfl rfl))
  · unfold deleteMeme
    rw [if_neg hid]
    exact .inr ⟨rfl, .ended (endsWell_typedResponse (.inr (by decide)))⟩
  · cases getTarget (checkUri req.uri) with
    | redirect location =>
      have hstatus : (303 : Nat) ≠ 400 := by decide
      exact .inr ⟨rfl, .ended (.answered fun heq => hstatus (congrArg Response.statusCode heq))⟩
    | list => exact .inr ⟨rfl, .list⟩
    | search query =>
      refine .inr ⟨rfl, ?_⟩
      dsimp only [memeSearch]
      cases hdecode : uriDecode query with
      | error e => exact hthrown (uriDecode_error hdecode)
      | ok decoded => exact .search decoded
    | byId id => exact .inl (congrArg some (getMemeById_eq id).symm)
  · exact .inr ⟨rfl, .ended (endsWell_typedResponse (.inl (by decide)))⟩

end GittyUp
