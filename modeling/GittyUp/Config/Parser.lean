import GittyUp.Config.Lexer

/-!
# The config parser (`NginxConfigParser::Parse`)

The loop of `Parse` reads one token after another and mutates the config it was
given: it keeps a stack of pointers to the configs whose blocks are open, the
type of the last token, and a brace counter. It leaves the loop with `true` at
the end of the file, with `false` (and the tree built so far) on the first
token that does not fit.
-/

namespace GittyUp

open Lib

/-- The local variables of `Parse` that live across iterations, with the
out-parameter `*config`. -/
structure ParserState where
  config : NginxConfig
  /-- `config_stack`, top first. -/
  configStack : List Path
  lastTokenType : TokenType
  startBlock : Int

namespace ParserState

/-- `config_stack.top()`. -/
def top (st : ParserState) : Path := st.configStack.headD []

/-- `config_stack.top()->statements_.emplace_back(new NginxConfigStatement)`. -/
def emplaceBack (st : ParserState) : ParserState :=
  { st with config := NginxConfig.modifyAt (· ++ [.mk [] none]) st.top st.config }

/-- `config_stack.top()->statements_.back().get()->tokens_.push_back(token)`. -/
def pushBackToken (token : Bytes) (st : ParserState) : ParserState :=
  { st with
    config := NginxConfig.modifyAt
      (NginxConfig.modifyBack fun s => .mk (s.tokens ++ [token]) s.childBlock)
      st.top st.config }

/-- `config_stack.top()->statements_.back().get()->child_block_.reset(new_config)`
followed by `config_stack.push(new_config)`. -/
def openChildBlock (st : ParserState) : ParserState :=
  let size := ((NginxConfig.getAt st.top st.config).getD []).length
  { st with
    config := NginxConfig.modifyAt
      (NginxConfig.modifyBack fun s => .mk s.tokens (some [])) st.top st.config
    configStack := (st.top ++ [size - 1]) :: st.configStack }

/-- `config_stack.pop()`. -/
def pop (st : ParserState) : ParserState :=
  { st with configStack := st.configStack.tail }

end ParserState

/-- How one iteration of the loop in `Parse` ends: with the next iteration,
with `break` (and then `return false`), or with `return true`. -/
inductive LoopStep where
  | next (st : ParserState)
  | fail (st : ParserState)
  | accept (st : ParserState)

/-- One iteration of the loop in `Parse`, on the token `ParseToken` returned. -/
def parseStep (st : ParserState) (tokenType : TokenType) (token : Bytes) : LoopStep :=
  match tokenType with
  | .error => .fail st
  | .comment => .next st
  | .start => .fail st
  | .normal =>
    if st.lastTokenType = .start ∨ st.lastTokenType = .statementEnd ∨
        st.lastTokenType = .startBlock ∨ st.lastTokenType = .endBlock ∨
        st.lastTokenType = .normal then
      -- the first token of a statement
      let st' := if st.lastTokenType ≠ .normal then st.emplaceBack else st
      .next { st'.pushBackToken token with lastTokenType := .normal }
    else .fail st
  | .statementEnd =>
    if st.lastTokenType ≠ .normal then .fail st
    else .next { st with lastTokenType := .statementEnd }
  | .startBlock =>
    if st.lastTokenType ≠ .normal then .fail st
    else
      let st' := { st with startBlock := st.startBlock + 1 }
      .next { st'.openChildBlock with lastTokenType := .startBlock }
  | .endBlock =>
    if st.lastTokenType ≠ .statementEnd ∧ st.lastTokenType ≠ .endBlock then .fail st
    else
      let st' := { st with startBlock := st.startBlock - 1 }
      -- more `}` than `{`
      if st'.startBlock < 0 then .fail st'
      else .next { st'.pop with lastTokenType := .endBlock }
  | .eof =>
    if st.lastTokenType ≠ .statementEnd ∧ st.lastTokenType ≠ .endBlock then .fail st
    else if st.startBlock ≠ 0 then .fail st
    else .accept st

/-- The loop of `Parse`, for at most `fuel` iterations; `parse` starts it with
more iterations than the stream has bytes, which `parseLoop_fuel` shows to be
all it can make. -/
def parseLoop : Nat → ParserState → Bytes → Bool × NginxConfig
  | 0, st, _ => (false, st.config)
  | fuel + 1, st, input =>
    match parseStep st (parseToken input).type (parseToken input).value with
    | .next st' => parseLoop fuel st' (parseToken input).rest
    | .fail st' => (false, st'.config)
    | .accept st' => (true, st'.config)

/-- The state in which `Parse` enters its loop. -/
def ParserState.init (config : NginxConfig) : ParserState :=
  ⟨config, [[]], .start, 0⟩

/-- `NginxConfigParser::Parse(std::istream*, NginxConfig*)`: the returned flag
and the config left in the out-parameter. -/
def parse (input : Bytes) (config : NginxConfig) : Bool × NginxConfig :=
  parseLoop (input.length + 1) (.init config) input

/-- `NginxConfigParser::Parse(const char*, NginxConfig*)`: `none` is a file that
cannot be opened. -/
def parseFile (file : Option Bytes) (config : NginxConfig) : Bool × NginxConfig :=
  match file with
  | none => (false, config)
  | some content => parse content config

/-! ## Every iteration reads at least one byte -/

/-- The lexer never grows the stream, and a token that does not end the file
was at least one byte (when the lexer has read its first character, the word it
is in the middle of pays for it). -/
theorem parseTokenLoop_rest (state : TokenParserState) (value input : Bytes) :
    (parseTokenLoop state value input).rest.length ≤ input.length ∧
      (state ≠ .tokenTypeNormal →
        (parseTokenLoop state value input).type ≠ .eof →
        (parseTokenLoop state value input).type ≠ .error →
        (parseTokenLoop state value input).rest.length < input.length) := by
  induction input generalizing state value with
  | nil =>
    unfold parseTokenLoop
    split <;> simp_all
  | cons c input ih =>
    -- whatever state comes next, at least `c` has been read
    have shift : ∀ state' value',
        (parseTokenLoop state' value' input).rest.length ≤ (c :: input).length ∧
          ((parseTokenLoop state' value' input).rest.length < (c :: input).length) := by
      intro state' value'
      have := (ih state' value').1
      simp only [List.length_cons]
      omega
    cases state <;> unfold parseTokenLoop <;> split_ifs <;>
      first
        | exact ⟨(shift _ _).1, fun _ _ _ => (shift _ _).2⟩
        | simp

theorem parseToken_rest_lt {input : Bytes} (heof : (parseToken input).type ≠ .eof)
    (herr : (parseToken input).type ≠ .error) :
    (parseToken input).rest.length < input.length :=
  (parseTokenLoop_rest .initialWhitespace [] input).2 (by simp) heof herr

/-- The ways in which the loop goes on from `st` with a token. -/
inductive ParserState.Continues (st : ParserState) (token : Bytes) : TokenType → ParserState → Prop
  | comment : st.Continues token .comment st
  | normal : st.Continues token .normal
      { (if st.lastTokenType ≠ .normal then st.emplaceBack else st).pushBackToken token with
        lastTokenType := .normal }
  | statementEnd (hlast : st.lastTokenType = .normal) : st.Continues token .statementEnd
      { st with lastTokenType := .statementEnd }
  | startBlock (hlast : st.lastTokenType = .normal) : st.Continues token .startBlock
      { ({ st with startBlock := st.startBlock + 1 } : ParserState).openChildBlock with
        lastTokenType := .startBlock }
  | endBlock (hlast : st.lastTokenType ≠ .normal) (hopen : 0 < st.startBlock) :
      st.Continues token .endBlock
        { ({ st with startBlock := st.startBlock - 1 } : ParserState).pop with
          lastTokenType := .endBlock }

/-- What one iteration can do, if it does not end the loop. -/
theorem parseStep_next {st st' : ParserState} {type : TokenType} {token : Bytes}
    (h : parseStep st type token = .next st') : st.Continues token type st' := by
  unfold parseStep at h
  cases type with
  | comment =>
    cases h
    exact .comment
  | normal =>
    dsimp only at h
    by_cases hlast : st.lastTokenType = .start ∨ st.lastTokenType = .statementEnd ∨
        st.lastTokenType = .startBlock ∨ st.lastTokenType = .endBlock ∨
        st.lastTokenType = .normal
    · rw [if_pos hlast] at h
      cases h
      exact .normal
    · rw [if_neg hlast] at h
      cases h
  | statementEnd =>
    dsimp only at h
    split_ifs at h with hlast
    cases h
    exact .statementEnd (not_not.mp hlast)
  | startBlock =>
    dsimp only at h
    split_ifs at h with hlast
    cases h
    exact .startBlock (not_not.mp hlast)
  | endBlock =>
    dsimp only at h
    split_ifs at h with hlast hnegative
    cases h
    refine .endBlock (fun hnormal => hlast ?_) (by omega)
    rw [hnormal]
    exact ⟨by decide, by decide⟩
  | eof =>
    dsimp only at h
    split_ifs at h
  | start | error => cases h

/-- The loop goes on only after a token that is neither end of file nor error. -/
theorem parseStep_next_type {st st' : ParserState} {type : TokenType} {token : Bytes}
    (h : parseStep st type token = .next st') : type ≠ .eof ∧ type ≠ .error := by
  cases parseStep_next h <;> simp

/-- Iterations beyond one per unread byte, and one more, are never made. -/
theorem parseLoop_fuel (fuel : Nat) (st : ParserState) (input : Bytes)
    (h : input.length < fuel) :
    parseLoop fuel st input = parseLoop (input.length + 1) st input := by
  induction fuel using Nat.strongRecOn generalizing st input with
  | _ fuel ih =>
    obtain ⟨fuel, rfl⟩ : ∃ k, fuel = k + 1 := ⟨fuel - 1, by omega⟩
    unfold parseLoop
    cases hs : parseStep st (parseToken input).type (parseToken input).value with
    | fail st' => rfl
    | accept st' => rfl
    | next st' =>
      obtain ⟨heof, herr⟩ := parseStep_next_type hs
      have hlt := parseToken_rest_lt heof herr
      dsimp only
      by_cases hf : fuel = input.length
      · rw [hf]
      · rw [ih fuel (by omega) st' _ (by omega), ih input.length (by omega) st' _ hlt]

/-- The loop of `Parse` with as many iterations as it needs. -/
def parseFrom (st : ParserState) (input : Bytes) : Bool × NginxConfig :=
  parseLoop (input.length + 1) st input

theorem parse_eq (input : Bytes) (config : NginxConfig) :
    parse input config = parseFrom (.init config) input := rfl

/-- One iteration, without fuel. -/
theorem parseFrom_eq (st : ParserState) (input : Bytes) :
    parseFrom st input =
      match parseStep st (parseToken input).type (parseToken input).value with
      | .next st' => parseFrom st' (parseToken input).rest
      | .fail st' => (false, st'.config)
      | .accept st' => (true, st'.config) := by
  rw [parseFrom, parseLoop]
  cases hs : parseStep st (parseToken input).type (parseToken input).value with
  | fail st' => rfl
  | accept st' => rfl
  | next st' =>
    obtain ⟨heof, herr⟩ := parseStep_next_type hs
    exact parseLoop_fuel _ st' _ (parseToken_rest_lt heof herr)

end GittyUp
