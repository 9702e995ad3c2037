import GittyUp.Config.Parser
import GittyUp.Lib.CharStream

/-!
# `Parse` comes to an end

The lexer of `Config/Lexer.lean` reads a list of bytes. Here `ParseToken` reads a
stream as the source does, with `get` and `unget` and their effect on the stream's
state; `tokenLoop_reads` is the refinement. On top of it `ParseRun` is the loop of
`Parse` without a bound on its iterations, and `parse_terminates` shows that it
ends: every call but the last one makes the stream shorter, and no call is made
on a stream that has met its end.
-/

namespace GittyUp

open Lib

/-! ## `ParseToken` on the stream -/

/-- What one `ParseToken` call returns, and the stream it leaves. -/
structure StreamToken where
  type : TokenType
  value : Bytes
  stream : CharStream

/-- How one pass of the `switch` in `ParseToken` ends: with `return` or with `continue`. -/
inductive TokenStep where
  | returned (token : StreamToken)
  | continued (state : TokenParserState) (value : Bytes)

/-- The `switch` in `ParseToken`, on the character `c` that was just read. -/
def tokenStep (value : Bytes) (c : Byte) (input : CharStream) : TokenParserState → TokenStep
  | .initialWhitespace =>
    if c = '{' then .returned ⟨.startBlock, [c], input⟩
    else if c = '}' then .returned ⟨.endBlock, [c], input⟩
    else if c = '#' then .continued .tokenTypeComment [c]
    else if c = '"' then .continued .doubleQuote [c]
    else if c = '\'' then .continued .singleQuote [c]
    else if c = ';' then .returned ⟨.statementEnd, [c], input⟩
    else if c = ' ' ∨ c = '\t' ∨ c = '\n' ∨ c = '\r' then .continued .initialWhitespace value
    else .continued .tokenTypeNormal (value ++ [c])
  | .singleQuote =>
    if c = '\'' then .returned ⟨.normal, value ++ [c], input⟩
    else .continued .singleQuote (value ++ [c])
  | .doubleQuote =>
    if c = '"' then .returned ⟨.normal, value ++ [c], input⟩
    else .continued .doubleQuote (value ++ [c])
  | .tokenTypeComment =>
    if c = '\n' ∨ c = '\r' then .returned ⟨.comment, value, input⟩
    else .continued .tokenTypeComment (value ++ [c])
  | .tokenTypeNormal =>
    if c = ' ' ∨ c = '\t' ∨ c = '\n' ∨ c = '\t' ∨ c = ';' ∨ c = '{' ∨ c = '}' then
      .returned ⟨.normal, value, input.unget⟩
    else .continued .tokenTypeNormal (value ++ [c])

/-- What `ParseToken` returns behind its loop. -/
def tokenAtEnd (state : TokenParserState) (value : Bytes) (input : CharStream) : StreamToken :=
  if state = .singleQuote ∨ state = .doubleQuote then ⟨.error, value, input⟩
  else ⟨.eof, value, input⟩

/-- The loop of `ParseToken` on the stream. -/
def tokenLoop (state : TokenParserState) (value : Bytes) (input : CharStream) : StreamToken :=
  if input.good then
    match _ : input.get with
    | (none, input') => tokenAtEnd state value input'
    | (some c, input') =>
      match tokenStep value c input' state with
      | .returned token => token
      | .continued state' value' => tokenLoop state' value' input'
  else tokenAtEnd state value input
termination_by input.unread.length
decreasing_by
  have hget : input.get = (some c, input') := by assumption
  rw [(CharStream.get_some hget).2.1]
  exact Nat.lt_succ_self _

/-- `ParseToken`, on an empty `*value`. -/
def parseTokenFrom (input : CharStream) : StreamToken :=
  tokenLoop .initialWhitespace [] input

theorem tokenLoop_end {input : CharStream} (hgood : input.good = true) (hunread : input.unread = [])
    (state : TokenParserState) (value : Bytes) :
    tokenLoop state value input =
      tokenAtEnd state value { input with eof := true, fail := true } := by
  rw [tokenLoop, if_pos hgood]
  split
  · next hget =>
    rw [CharStream.get_nil hgood hunread] at hget
    cases hget
    rfl
  · next hget =>
    rw [CharStream.get_nil hgood hunread] at hget
    cases hget

theorem tokenLoop_get {input input' : CharStream} {c : Byte} (hget : input.get = (some c, input'))
    (state : TokenParserState) (value : Bytes) :
    tokenLoop state value input =
      match tokenStep value c input' state with
      | .returned token => token
      | .continued state' value' => tokenLoop state' value' input' := by
  rw [tokenLoop, if_pos (CharStream.get_some hget).1]
  split
  · next h =>
    rw [hget] at h
    cases h
  · next h =>
    rw [hget] at h
    cases h
    rfl

/-- The call on the stream returns what `ParseToken` returns on the unread bytes; it
leaves the same bytes unread, loses none, and leaves the stream good exactly if it was
not stopped by the end of the file. -/
structure Reads (input : CharStream) (token : ParsedToken) (result : StreamToken) : Prop where
  type : result.type = token.type
  value : result.value = token.value
  rest : result.stream.unread = token.rest
  content : result.stream.content = input.content
  good : result.stream.good = true ↔ token.type ≠ .eof ∧ token.type ≠ .error

/-- What is parsed when a pass of the `switch` ends so, with `rest` unread. -/
def TokenStep.parsed (rest : Bytes) : TokenStep → ParsedToken
  | .returned token => ⟨token.type, token.value, token.stream.unread⟩
  | .continued state value => parseTokenLoop state value rest

@[simp] theorem TokenStep.parsed_returned (rest : Bytes) (token : StreamToken) :
    (TokenStep.returned token).parsed rest = ⟨token.type, token.value, token.stream.unread⟩ :=
  rfl

@[simp] theorem TokenStep.parsed_continued (rest : Bytes) (state : TokenParserState)
    (value : Bytes) :
    (TokenStep.continued state value).parsed rest = parseTokenLoop state value rest := rfl

/-- One pass of the `switch` is one step of the lexer on the unread bytes. -/
theorem tokenStep_parsed {input : CharStream} {c : Byte} {rest : Bytes}
    (hunread : input.unread = rest) (hunget : input.unget.unread = c :: rest)
    (state : TokenParserState) (value : Bytes) :
    parseTokenLoop state value (c :: rest) = (tokenStep value c input state).parsed rest := by
  cases state <;>
    simp only [parseTokenLoop, tokenStep, apply_ite (TokenStep.parsed rest),
      TokenStep.parsed_returned, TokenStep.parsed_continued, hunread, hunget]

/-- A pass that returns has read `c`, or has put it back; the end of the file is behind
the loop. -/
theorem tokenStep_returned {input : CharStream} {c : Byte} {state : TokenParserState}
    {value : Bytes} {token : StreamToken} (h : tokenStep value c input state = .returned token) :
    (token.stream = input ∨ token.stream = input.unget) ∧ token.type ≠ .eof ∧
      token.type ≠ .error := by
  cases state with
  | initialWhitespace =>
    unfold tokenStep at h
    dsimp only at h
    split_ifs at h <;> cases h <;> simp
  | _ =>
    unfold tokenStep at h
    dsimp only at h
    split_ifs at h
    cases h
    simp

/-- **The call on the stream** refines the one on the unread bytes. -/
theorem tokenLoop_reads (state : TokenParserState) (value : Bytes) (input : CharStream)
    (hgood : input.good = true) :
    Reads input (parseTokenLoop state value input.unread) (tokenLoop state value input) := by
  generalize hunread : input.unread = unread
  induction unread generalizing state value input with
  | nil =>
    rw [tokenLoop_end hgood hunread]
    unfold parseTokenLoop tokenAtEnd
    split_ifs
    · exact ⟨rfl, rfl, hunread, rfl, by simp [CharStream.good]⟩
    · exact ⟨rfl, rfl, hunread, rfl, by simp [CharStream.good]⟩
  | cons c unread ih =>
    have hget := CharStream.get_cons hgood hunread
    generalize hinput' : ({ input with extracted := c :: input.extracted, unread := unread } :
      CharStream) = input' at hget
    obtain ⟨-, -, hgood', hcontent⟩ := CharStream.get_some hget
    have hunread' : input'.unread = unread := by rw [← hinput']
    have hunget := CharStream.unget_get hget
    rw [tokenLoop_get hget, tokenStep_parsed hunread' (by rw [hunget, hunread])]
    cases hstep : tokenStep value c input' state with
    | returned token =>
      obtain ⟨hstream, htype⟩ := tokenStep_returned hstep
      rw [hunget] at hstream
      refine ⟨rfl, rfl, rfl, ?_, ?_⟩
      · rcases hstream with h | h <;> simp [h, hcontent]
      · rcases hstream with h | h <;> simp [h, hgood, hgood', htype]
    | continued state' value' =>
      obtain ⟨htype, hvalue, hrest, hcontent', hgood⟩ := ih state' value' input' hgood' hunread'
      exact ⟨htype, hvalue, hrest, hcontent'.trans hcontent, hgood⟩

theorem parseTokenFrom_reads {input : CharStream} (h : input.good = true) :
    Reads input (parseToken input.unread) (parseTokenFrom input) :=
  tokenLoop_reads .initialWhitespace [] input h

/-! ## Runs of `Parse` -/

/-- A call of `ParseToken`: the stream before it, and what it returns. -/
structure ParseTokenCall where
  before : CharStream
  result : StreamToken

/-- The iteration of the loop in `Parse` in the state `st`, with `input` still to read. -/
def iterate (st : ParserState) (input : CharStream) : LoopStep :=
  parseStep st (parseTokenFrom input).type (parseTokenFrom input).value

/-- The loop of `Parse` from a state and a stream on comes to an end: the calls of
`ParseToken` it makes, and what `Parse` returns. -/
inductive ParseRun : ParserState → CharStream → List ParseTokenCall → Bool × NginxConfig → Prop
  | fail {st st' : ParserState} {input : CharStream} (h : iterate st input = .fail st') :
    ParseRun st input [⟨input, parseTokenFrom input⟩] (false, st'.config)
  | accept {st st' : ParserState} {input : CharStream} (h : iterate st input = .accept st') :
    ParseRun st input [⟨input, parseTokenFrom input⟩] (true, st'.config)
  | next {st st' : ParserState} {input : CharStream} {calls : List ParseTokenCall}
      {result : Bool × NginxConfig} (h : iterate st input = .next st')
      (run : ParseRun st' (parseTokenFrom input).stream calls result) :
    ParseRun st input (⟨input, parseTokenFrom input⟩ :: calls) result

/-- There is one run at most. -/
theorem ParseRun.unique {st : ParserState} {input : CharStream} {calls calls' : List ParseTokenCall}
    {result result' : Bool × NginxConfig} (h : ParseRun st input calls result)
    (h' : ParseRun st input calls' result') : calls' = calls ∧ result' = result := by
  induction h generalizing calls' result' with
  | fail h =>
    cases h' with
    | fail h' =>
      cases h.symm.trans h'
      exact ⟨rfl, rfl⟩
    | accept h' => cases h.symm.trans h'
    | next h' _ => cases h.symm.trans h'
  | accept h =>
    cases h' with
    | fail h' => cases h.symm.trans h'
    | accept h' =>
      cases h.symm.trans h'
      exact ⟨rfl, rfl⟩
    | next h' _ => cases h.symm.trans h'
  | next h _ ih =>
    cases h' with
    | fail h' => cases h.symm.trans h'
    | accept h' => cases h.symm.trans h'
    | next h' run' =>
      cases h.symm.trans h'
      obtain ⟨rfl, rfl⟩ := ih run'
      exact ⟨rfl, rfl⟩

/-- The call that meets the end of the file is the last one. -/
theorem ParseRun.last {st : ParserState} {input : CharStream} {calls : List ParseTokenCall}
    {result : Bool × NginxConfig} (h : ParseRun st input calls result)
    {before after : List ParseTokenCall} {call : ParseTokenCall}
    (hcalls : calls = before ++ call :: after)
    (htype : call.result.type = .eof ∨ call.result.type = .error) : after = [] := by
  induction h generalizing before with
  | fail _ | accept _ =>
    cases before with
    | nil => exact (List.cons.inj hcalls).2.symm
    | cons _ before => simp at hcalls
  | next h _ ih =>
    cases before with
    | nil =>
      obtain ⟨rfl, -⟩ := List.cons.inj hcalls
      obtain ⟨heof, herror⟩ := parseStep_next_type h
      exact (htype.elim heof herror).elim
    | cons _ before => exact ih (List.cons.inj hcalls).2

/-- A call that is not stopped by the end of the file makes progress, and only a call
that is not stopped by it leaves a stream to read from. -/
structure ParseTokenCall.Progress (call : ParseTokenCall) : Prop where
  before : call.before.good = true
  reads : call.result.type ≠ .eof → call.result.type ≠ .error →
    call.result.stream.unread.length < call.before.unread.length
  good : call.result.stream.good = true ↔ call.result.type ≠ .eof ∧ call.result.type ≠ .error

theorem parseTokenFrom_progress {input : CharStream} (h : input.good = true) :
    ParseTokenCall.Progress ⟨input, parseTokenFrom input⟩ := by
  obtain ⟨htype, -, hrest, -, hgood⟩ := parseTokenFrom_reads h
  refine ⟨h, fun heof herror => ?_, ?_⟩
  · rw [hrest]
    rw [htype] at heof herror
    exact parseToken_rest_lt heof herror
  · rw [htype]
    exact hgood

theorem iterate_eq (st : ParserState) {input : CharStream} (h : input.good = true) :
    iterate st input =
      parseStep st (parseToken input.unread).type (parseToken input.unread).value := by
  rw [iterate, (parseTokenFrom_reads h).type, (parseTokenFrom_reads h).value]

/-- **The loop ends**, with what `parseFrom` returns, after no more calls than there are
bytes to read and one: every call but the last one reads a byte at least. -/
theorem parseRun_exists (st : ParserState) (input : CharStream) (h : input.good = true) :
    ∃ calls, ParseRun st input calls (parseFrom st input.unread) ∧
      calls.length ≤ input.unread.length + 1 ∧ ∀ call ∈ calls, call.Progress := by
  induction hn : input.unread.length using Nat.strongRecOn generalizing st input with
  | _ n ih =>
    subst hn
    have hprogress := parseTokenFrom_progress h
    have hiterate := iterate_eq st h
    rw [parseFrom_eq, ← hiterate]
    cases hs : iterate st input with
    | fail st' => exact ⟨_, .fail hs, by simp, by simpa using hprogress⟩
    | accept st' => exact ⟨_, .accept hs, by simp, by simpa using hprogress⟩
    | next st' =>
      have htype := parseStep_next_type hs
      have hlt := hprogress.reads htype.1 htype.2
      obtain ⟨calls, hrun, hlength, hcalls⟩ :=
        ih _ hlt st' (parseTokenFrom input).stream (hprogress.good.mpr htype) rfl
      rw [(parseTokenFrom_reads h).rest] at hrun
      refine ⟨_, .next hs hrun, ?_, List.forall_mem_cons.mpr ⟨hprogress, hcalls⟩⟩
      change _ < _ at hlt
      simp only [List.length_cons] at *
      omega

/-- **`Parse` terminates** on every input: its loop makes one run, which returns what
`parse` does. The run calls `ParseToken` at most once for each byte and once more, each
time on a good stream; a call leaves fewer bytes to read, unless it returns EOF or ERROR,
and behind such a call there is no other. -/
theorem parse_terminates (input : Bytes) (config : NginxConfig) :
    ∃ calls, ParseRun (.init config) (.ofBytes input) calls (parse input config) ∧
      (∀ calls' result, ParseRun (.init config) (.ofBytes input) calls' result →
        calls' = calls ∧ result = parse input config) ∧
      calls.length ≤ input.length + 1 ∧
      (∀ call ∈ calls, call.Progress) ∧
      ∀ before call after, calls = before ++ call :: after →
        call.result.type = .eof ∨ call.result.type = .error → after = [] := by
  obtain ⟨calls, hrun, hlength, hcalls⟩ := parseRun_exists (.init config) (.ofBytes input) rfl
  exact ⟨calls, hrun, fun _ _ h => hrun.unique h, hlength, hcalls,
    fun _ _ _ h htype => hrun.last h htype⟩

end GittyUp
