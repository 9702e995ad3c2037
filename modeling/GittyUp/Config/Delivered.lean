import GittyUp.Config.Spelling

/-!
# What the tree keeps of the delivered tokens

`Parse` sees its stream only through `ParseToken`. `deliveredTokens` is the
sequence of types and texts that successive calls deliver, comments left out,
up to the call that ends it (`TOKEN_TYPE_EOF` or `TOKEN_TYPE_ERROR`).
`parse_flatten` compares it with the tree, flattened back to tokens.
-/

namespace GittyUp

open Lib

/-- A config token as `ParseToken` delivers it. -/
def ConfigToken.delivered (t : ConfigToken) : TokenType × Bytes := (t.type, t.text)

/-- The results of at most `fuel` successive `ParseToken` calls on one stream,
up to the first that ends the file or is an error, that one included. -/
def parseTokens : Nat → Bytes → List ParsedToken
  | 0, _ => []
  | fuel + 1, input =>
    if (parseToken input).type = .eof ∨ (parseToken input).type = .error then
      [parseToken input]
    else parseToken input :: parseTokens fuel (parseToken input).rest

/-- The results of successive `ParseToken` calls on a stream, as many as it
takes to end it. -/
def tokensOf (input : Bytes) : List ParsedToken := parseTokens (input.length + 1) input

/-- The non-comment tokens delivered before the call that ends the stream. -/
def deliveredTokens (input : Bytes) : List (TokenType × Bytes) :=
  ((tokensOf input).dropLast.filter fun t => t.type ≠ .comment).map fun t => (t.type, t.value)

/-! ## One call after another -/

/-- Calls beyond one per unread byte, and one more, are never made. -/
theorem parseTokens_fuel (fuel : Nat) (input : Bytes) (h : input.length < fuel) :
    parseTokens fuel input = tokensOf input := by
  induction fuel using Nat.strongRecOn generalizing input with
  | _ fuel ih =>
    obtain ⟨fuel, rfl⟩ : ∃ k, fuel = k + 1 := ⟨fuel - 1, by omega⟩
    rw [tokensOf, parseTokens, parseTokens]
    by_cases hend : (parseToken input).type = .eof ∨ (parseToken input).type = .error
    · rw [if_pos hend, if_pos hend]
    · rw [if_neg hend, if_neg hend]
      obtain ⟨heof, herr⟩ := not_or.mp hend
      have hlt := parseToken_rest_lt heof herr
      by_cases hf : fuel = input.length
      · rw [hf]
      · rw [ih fuel (by omega) _ (by omega), ih input.length (by omega) _ hlt]

theorem tokensOf_end {input : Bytes}
    (h : (parseToken input).type = .eof ∨ (parseToken input).type = .error) :
    tokensOf input = [parseToken input] := by
  rw [tokensOf, parseTokens, if_pos h]

theorem tokensOf_next {input : Bytes} (heof : (parseToken input).type ≠ .eof)
    (herr : (parseToken input).type ≠ .error) :
    tokensOf input = parseToken input :: tokensOf (parseToken input).rest := by
  rw [tokensOf, parseTokens, if_neg (not_or.mpr ⟨heof, herr⟩),
    parseTokens_fuel _ _ (parseToken_rest_lt heof herr)]

/-- Some call ends the stream. -/
theorem tokensOf_ne_nil (input : Bytes) : tokensOf input ≠ [] := by
  rw [tokensOf, parseTokens]
  split_ifs <;> simp

/-- A call that delivers the token `t`. -/
theorem deliveredTokens_token {t : ConfigToken} {input value r : Bytes}
    (h : parseToken input = ⟨t.type, value, r⟩) :
    deliveredTokens input = (t.type, value) :: deliveredTokens r := by
  have htype : t.type ≠ .eof ∧ t.type ≠ .error ∧ t.type ≠ .comment := by
    cases t <;> simp [ConfigToken.type]
  obtain ⟨heof, herr, hcomment⟩ := htype
  have hnext : tokensOf input = parseToken input :: tokensOf (parseToken input).rest :=
    tokensOf_next (by rw [h]; exact heof) (by rw [h]; exact herr)
  rw [deliveredTokens, hnext, h, List.dropLast_cons_of_ne_nil (tokensOf_ne_nil r)]
  simp [hcomment, deliveredTokens]

/-- A call that returns a comment delivers nothing. -/
theorem deliveredTokens_comment {input value rest : Bytes}
    (h : parseToken input = ⟨.comment, value, rest⟩) :
    deliveredTokens input = deliveredTokens rest := by
  have hnext : tokensOf input = parseToken input :: tokensOf (parseToken input).rest :=
    tokensOf_next (by rw [h]; simp) (by rw [h]; simp)
  rw [deliveredTokens, hnext, h, List.dropLast_cons_of_ne_nil (tokensOf_ne_nil rest)]
  simp [deliveredTokens]

theorem tokensOf_congr {input input' : Bytes} (h : parseToken input = parseToken input') :
    tokensOf input = tokensOf input' := by
  by_cases hend : (parseToken input).type = .eof ∨ (parseToken input).type = .error
  · rw [tokensOf_end hend, tokensOf_end (h ▸ hend), h]
  · obtain ⟨heof, herr⟩ := not_or.mp hend
    have hnext : tokensOf input' = parseToken input' :: tokensOf (parseToken input').rest :=
      tokensOf_next (h ▸ heof) (h ▸ herr)
    rw [tokensOf_next heof herr, hnext, h]

/-! ## Spelled texts -/

/-- The tokens a text spells are the ones delivered. -/
theorem Spells.deliveredTokens_eq {ts : List ConfigToken} {s rest : Bytes}
    (h : Spells ts s rest) :
    deliveredTokens s = ts.map ConfigToken.delivered ++ deliveredTokens rest := by
  induction h with
  | done => rfl
  | @blank c ts s rest hc _ ih =>
    rw [deliveredTokens, tokensOf_congr (parseToken_blank hc s)]
    exact ih
  | @comment c body ts s rest hb hc _ ih =>
    rw [deliveredTokens_comment (parseToken_comment body c s hb hc), ih]
  | @semicolon ts s rest _ ih =>
    rw [deliveredTokens_token (t := .semicolon) (r := s) rfl, ih]
    rfl
  | @openBrace ts s rest _ ih =>
    rw [deliveredTokens_token (t := .openBrace) (r := s) rfl, ih]
    rfl
  | @closeBrace ts s rest _ ih =>
    rw [deliveredTokens_token (t := .closeBrace) (r := s) rfl, ih]
    rfl
  | @quoted q ts s rest hq _ ih =>
    rw [deliveredTokens_token (t := .word q) (parseToken_quoted hq s), ih]
    rfl
  | @bare w c ts s rest hw hc _ ih =>
    rw [deliveredTokens_token (t := .word w) (parseToken_bare hw hc s), ih]
    rfl

/-- At the end of the text, unless a quote is open, one more call is made, and
it delivers nothing. -/
theorem tokensOf_textEnd {rest : Bytes} (hend : TextEnd rest) (hq : ¬ OpenQuote rest) :
    tokensOf rest = [parseToken rest] :=
  tokensOf_end (.inl (parseToken_textEnd hend hq))

/-- A spelled prefix does not change which call ends the stream. -/
theorem Spells.getLast?_tokensOf {ts : List ConfigToken} {s rest : Bytes}
    (h : Spells ts s rest) : (tokensOf s).getLast? = (tokensOf rest).getLast? := by
  have next : ∀ {input : Bytes} {t : TokenType} {value r : Bytes},
      parseToken input = ⟨t, value, r⟩ → t ≠ .eof → t ≠ .error →
      (tokensOf input).getLast? = (tokensOf r).getLast? := by
    intro input t value r hparse heof herr
    rw [tokensOf_next (by rw [hparse]; exact heof) (by rw [hparse]; exact herr), hparse,
      List.getLast?_cons_of_ne_nil (tokensOf_ne_nil r)]
  induction h with
  | done => rfl
  | @blank c ts s rest hc _ ih => rw [tokensOf_congr (parseToken_blank hc s), ih]
  | @comment c body ts s rest hb hc _ ih =>
    rw [next (parseToken_comment body c s hb hc) (by simp) (by simp), ih]
  | @semicolon ts s rest _ ih =>
    rw [next (t := .statementEnd) (r := s) rfl (by simp) (by simp), ih]
  | @openBrace ts s rest _ ih =>
    rw [next (t := .startBlock) (r := s) rfl (by simp) (by simp), ih]
  | @closeBrace ts s rest _ ih =>
    rw [next (t := .endBlock) (r := s) rfl (by simp) (by simp), ih]
  | @quoted q ts s rest hq _ ih =>
    rw [next (parseToken_quoted hq s) (by simp) (by simp), ih]
  | @bare w c ts s rest hw hc _ ih =>
    rw [next (parseToken_bare hw hc s) (by simp) (by simp), ih]

/-- **No token is lost, duplicated, reordered or misplaced**: where `Parse`
returns true, the calls of `ParseToken` end with the end of the file, and the
tree flattened is what they delivered before it. -/
theorem parse_flatten (s : Bytes) (c : NginxConfig) (h : parse s [] = (true, c)) :
    (∃ final, (tokensOf s).getLast? = some final ∧ final.type = .eof) ∧
      c.flatten.map ConfigToken.delivered = deliveredTokens s := by
  obtain ⟨ts, rest, hspells, hend⟩ := exists_spells s
  obtain ⟨hq, -, rfl⟩ := (hspells.parse_eq_true_iff hend c).mp h
  have hfinal := tokensOf_textEnd hend hq
  constructor
  · refine ⟨parseToken rest, ?_, parseToken_textEnd hend hq⟩
    rw [hspells.getLast?_tokensOf, hfinal]
    rfl
  · rw [hspells.deliveredTokens_eq, deliveredTokens, hfinal]
    simp

/-- A block with a quoted string, and a comment after it. -/
theorem parse_flatten_block :
    (∃ final, (tokensOf "a\x7bb ';'; \x7d #c").getLast? = some final ∧ final.type = .eof) ∧
      (NginxConfig.flatten [.mk ["a"] (some [.mk ["b", "';'"] none])]).map
        ConfigToken.delivered = deliveredTokens "a\x7bb ';'; \x7d #c" :=
  parse_flatten "a\x7bb ';'; \x7d #c" [.mk ["a"] (some [.mk ["b", "';'"] none])] rfl

end GittyUp
