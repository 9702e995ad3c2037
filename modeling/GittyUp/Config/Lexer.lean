import GittyUp.Config.Tree

/-!
# The config lexer (`NginxConfigParser::ParseToken`)

`ParseToken` reads one token off the input stream, character by character,
with a five-state machine. The stream is the list of its unread bytes: reading
past the end (which sets the stream's end-of-file state) is the `[]` case, and
`unget` puts the byte just read back. `Config/Termination.lean` has the calls on a
stream with these operations, and shows that they return the same.
-/

namespace GittyUp

open Lib

/-- `NginxConfigParser::TokenType`. -/
inductive TokenType where
  | start
  | normal
  | startBlock
  | endBlock
  | comment
  | statementEnd
  | eof
  | error
  deriving DecidableEq, Repr

/-- `NginxConfigParser::TokenParserState`. -/
inductive TokenParserState where
  | initialWhitespace
  | singleQuote
  | doubleQuote
  | tokenTypeComment
  | tokenTypeNormal
  deriving DecidableEq, Repr

/-- What one `ParseToken` call leaves: the returned type, the token text in
`*value`, and the bytes still unread. -/
structure ParsedToken where
  type : TokenType
  value : Bytes
  rest : Bytes
  deriving DecidableEq, Repr

/-- The loop of `ParseToken`: lexer state, `*value` so far, unread bytes. -/
def parseTokenLoop : TokenParserState → Bytes → Bytes → ParsedToken
  | state, value, [] =>
    if state = .singleQuote ∨ state = .doubleQuote then ⟨.error, value, []⟩
    else ⟨.eof, value, []⟩
  | .initialWhitespace, value, c :: input =>
    if c = '{' then ⟨.startBlock, [c], input⟩
    else if c = '}' then ⟨.endBlock, [c], input⟩
    else if c = '#' then parseTokenLoop .tokenTypeComment [c] input
    else if c = '"' then parseTokenLoop .doubleQuote [c] input
    else if c = '\'' then parseTokenLoop .singleQuote [c] input
    else if c = ';' then ⟨.statementEnd, [c], input⟩
    else if c = ' ' ∨ c = '\t' ∨ c = '\n' ∨ c = '\r' then
      parseTokenLoop .initialWhitespace value input
    else parseTokenLoop .tokenTypeNormal (value ++ [c]) input
  | .singleQuote, value, c :: input =>
    if c = '\'' then ⟨.normal, value ++ [c], input⟩
    else parseTokenLoop .singleQuote (value ++ [c]) input
  | .doubleQuote, value, c :: input =>
    if c = '"' then ⟨.normal, value ++ [c], input⟩
    else parseTokenLoop .doubleQuote (value ++ [c]) input
  | .tokenTypeComment, value, c :: input =>
    if c = '\n' ∨ c = '\r' then ⟨.comment, value, input⟩
    else parseTokenLoop .tokenTypeComment (value ++ [c]) input
  | .tokenTypeNormal, value, c :: input =>
    -- the source lists '\t' twice and '\r' not at all
    if c = ' ' ∨ c = '\t' ∨ c = '\n' ∨ c = '\t' ∨ c = ';' ∨ c = '{' ∨ c = '}' then
      ⟨.normal, value, c :: input⟩
    else parseTokenLoop .tokenTypeNormal (value ++ [c]) input

/-- `NginxConfigParser::ParseToken`, on an empty `*value`. -/
def parseToken (input : Bytes) : ParsedToken :=
  parseTokenLoop .initialWhitespace [] input

end GittyUp
