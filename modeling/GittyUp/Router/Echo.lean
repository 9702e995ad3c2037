import GittyUp.Router.Handlers

/-!
# Requests that are sent back (`echo_handler.cc`, `session.cc`)

The echo handler answers with the request, and so does a session that cannot parse
it. Both hand the sized array of the raw request on as a C string: it ends at the
first NUL, and nothing puts one behind the array. No request is echoed exactly
(`not_echoedExactly`).
-/

namespace GittyUp

open Lib

/-! ## The raw request as a C string -/

theorem cString_of_nulFree {array : Bytes} (h : NulFree array) (beyond : Bytes) :
    cString array beyond = array ++ cStr beyond := by
  refine List.takeWhile_append_of_pos fun c hc => ?_
  exact decide_eq_true fun h0 => h (h0 ▸ hc)

theorem cString_of_mem {array : Bytes} (h : 0 ∈ array) (beyond : Bytes) :
    cString array beyond = cStr array := by
  rw [cString, cStr, List.takeWhile_append, if_neg]
  · rfl
  · -- the whole array would be free of NULs
    intro hlen
    have hwhole : cStr array = array := (List.takeWhile_prefix _).eq_of_length hlen
    exact nulFree_cStr array (hwhole.symm ▸ h)

/-- `std::string(char*)` as far as the language defines it: on an array that has a
NUL. -/
def definedCString (array : Bytes) : Option Bytes :=
  if 0 ∈ array then some (cStr array) else none

/-- It is what does not depend on the memory behind the array. -/
theorem definedCString_eq_some_iff {array s : Bytes} :
    definedCString array = some s ↔ ∀ beyond, cString array beyond = s := by
  unfold definedCString
  by_cases h : 0 ∈ array
  · rw [if_pos h]
    constructor
    · rintro hs beyond
      rw [cString_of_mem h, Option.some.inj hs]
    · intro hs
      rw [← hs [], cString_of_mem h]
  · rw [if_neg h]
    refine ⟨fun hs => (nomatch hs), fun hs => ?_⟩
    have hempty := (hs []).trans (hs [1]).symm
    rw [cString_of_nulFree h, cString_of_nulFree h, List.append_cancel_left_eq] at hempty
    exact absurd hempty (by decide)

/-- A C string is the whole array if there is no NUL in it, and one behind it. -/
theorem cString_eq_self_iff {array beyond : Bytes} :
    cString array beyond = array ↔ NulFree array ∧ cStr beyond = [] := by
  by_cases h : NulFree array
  · rw [cString_of_nulFree h, List.append_right_eq_self]
    exact (and_iff_right h).symm
  · refine ⟨fun heq => absurd ?_ h, fun heq => absurd heq.1 h⟩
    rw [← heq]
    exact nulFree_cStr _

/-! ## The responses -/

/-- The response that sends a request back. -/
def echoingResponse (beyond : Bytes) (req : Request) : Response :=
  if req.valid then echoHandleRequest beyond req else invalidRequestResponse beyond req

theorem responseBody_echoingResponse (beyond stale data : Bytes) :
    (echoingResponse beyond (Request.mk' stale data)).responseBody = cString data beyond := by
  unfold echoingResponse
  by_cases hvalid : (Request.mk' stale data).valid
  · rw [if_pos hvalid]
    exact congrArg (cString · beyond) (Request.rawRequest_mk' stale data)
  · rw [if_neg hvalid]
    exact congrArg (cString · beyond) (Request.rawRequest_mk' stale data)

/-- The array is sent back as it is, whatever the memory behind it holds. -/
def EchoedExactly (stale data : Bytes) : Prop :=
  ∀ beyond, (echoingResponse beyond (Request.mk' stale data)).responseBody = data

/-- **No request is echoed exactly**: one with a NUL is cut there, and one without
goes on in the memory behind it, unless that begins with a NUL. -/
theorem not_echoedExactly (stale data : Bytes) :
    ¬ EchoedExactly stale data ∧ definedCString data ≠ some data ∧
      ∀ beyond, (echoingResponse beyond (Request.mk' stale data)).responseBody = data ↔
        NulFree data ∧ cStr beyond = [] := by
  have hnever : ¬ ∀ beyond, cString data beyond = data := fun h =>
    absurd (cString_eq_self_iff.mp (h [1])).2 (by decide)
  refine ⟨fun h => hnever fun beyond => ?_, fun h => hnever ?_, fun beyond => ?_⟩
  · rw [← responseBody_echoingResponse]
    exact h beyond
  · exact definedCString_eq_some_iff.mp h
  · rw [responseBody_echoingResponse, cString_eq_self_iff]

/-- A request without a body, with the byte `x` behind its array, and a POST with a
NUL in its body. -/
theorem echo_not_exact :
    (echoingResponse "x" (Request.mk' [] "GET /echo HTTP/1.1\r\n\r\n")).responseBody =
        "GET /echo HTTP/1.1\r\n\r\nx" ∧
      ¬ EchoedExactly "" "GET /echo HTTP/1.1\r\n\r\n" ∧
      ¬ EchoedExactly "" (lit "POST /echo HTTP/1.1\r\n\r\na" ++ [0] ++ lit "b") := by
  have hbody : ∀ data, ¬ (cString data "x" = data) → ¬ EchoedExactly "" data := fun data hne h =>
    hne ((responseBody_echoingResponse "x" "" data).symm.trans (h "x"))
  refine ⟨?_, hbody _ (by decide), hbody _ (by decide)⟩
  rw [responseBody_echoingResponse]
  decide

end GittyUp
