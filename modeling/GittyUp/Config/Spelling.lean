import GittyUp.Config.Simulation

/-!
# How config texts spell tokens

`Spells ts s rest`: the text `s` begins with a spelling of the tokens `ts`,
blanks and comments in between, and goes on with `rest`. The judgment is
written without reference to the lexer, with the remaining text present, so
that a bare word ends where the text says (at a delimiter), not where a prefix
was cut.

- `Spells.readsAs`: reading a spelled prefix feeds its tokens to the zipper.
- `exists_spells`: every text is a spelling that stops at its end, in an open
  comment, in an open quote, or in a bare word that nothing ends.
- `parse_eq_true_iff`: hence when `Parse` accepts a text, and with which tree.
-/

namespace GittyUp

open Lib

/-! ## The lexical grammar -/

/-- The characters skipped between tokens. -/
def IsBlank (c : Byte) : Prop := c = ' ' ∨ c = '\t' ∨ c = '\n' ∨ c = '\r'

/-- The characters that end a bare word. -/
def EndsWord (c : Byte) : Prop :=
  c = ' ' ∨ c = '\t' ∨ c = '\n' ∨ c = ';' ∨ c = '{' ∨ c = '}'

/-- The characters that end a comment. -/
def EndsComment (c : Byte) : Prop := c = '\n' ∨ c = '\r'

instance : DecidablePred IsBlank := fun _ => inferInstanceAs (Decidable (_ ∨ _))
instance : DecidablePred EndsWord := fun _ => inferInstanceAs (Decidable (_ ∨ _))
instance : DecidablePred EndsComment := fun _ => inferInstanceAs (Decidable (_ ∨ _))

/-- A character that can begin a bare word. -/
def StartsWord (c : Byte) : Prop :=
  ¬ IsBlank c ∧ ¬ EndsWord c ∧ c ≠ '"' ∧ c ≠ '\'' ∧ c ≠ '#'

instance : DecidablePred StartsWord := fun _ => inferInstanceAs (Decidable (_ ∧ _))

/-- A bare word: it begins like one, and no character in it would end it. -/
def BareWord : Bytes → Prop
  | [] => False
  | c :: w => StartsWord c ∧ ∀ d ∈ w, ¬ EndsWord d

instance : DecidablePred BareWord
  | [] => inferInstanceAs (Decidable False)
  | _ :: _ => inferInstanceAs (Decidable (_ ∧ _))

/-- A complete quoted string, the quotes included. -/
def Quoted (q : Bytes) : Prop :=
  ∃ (quote : Byte) (body : Bytes), (quote = '"' ∨ quote = '\'') ∧
    quote ∉ body ∧ q = quote :: body ++ [quote]

/-- A token text: a bare word or a complete quoted string. -/
def IsWord (w : Bytes) : Prop := BareWord w ∨ Quoted w

/-- The text `s` spells the tokens `ts` and goes on with `rest`. -/
inductive Spells : List ConfigToken → Bytes → Bytes → Prop
  | done {rest : Bytes} : Spells [] rest rest
  | blank {c : Byte} {ts : List ConfigToken} {s rest : Bytes} :
      IsBlank c → Spells ts s rest → Spells ts (c :: s) rest
  | comment {c : Byte} {body : Bytes} {ts : List ConfigToken} {s rest : Bytes} :
      (∀ d ∈ body, ¬ EndsComment d) → EndsComment c →
      Spells ts s rest → Spells ts (('#' : Byte) :: body ++ c :: s) rest
  | semicolon {ts : List ConfigToken} {s rest : Bytes} :
      Spells ts s rest → Spells (.semicolon :: ts) ((';' : Byte) :: s) rest
  | openBrace {ts : List ConfigToken} {s rest : Bytes} :
      Spells ts s rest → Spells (.openBrace :: ts) (('{' : Byte) :: s) rest
  | closeBrace {ts : List ConfigToken} {s rest : Bytes} :
      Spells ts s rest → Spells (.closeBrace :: ts) (('}' : Byte) :: s) rest
  | quoted {q : Bytes} {ts : List ConfigToken} {s rest : Bytes} :
      Quoted q → Spells ts s rest → Spells (.word q :: ts) (q ++ s) rest
  | bare {w : Bytes} {c : Byte} {ts : List ConfigToken} {s rest : Bytes} :
      BareWord w → EndsWord c → Spells ts (c :: s) rest →
      Spells (.word w :: ts) (w ++ c :: s) rest

/-- A comment that the end of the text cuts. -/
def OpenComment (s : Bytes) : Prop :=
  ∃ body : Bytes, (∀ d ∈ body, ¬ EndsComment d) ∧ s = ('#' : Byte) :: body

/-- A quoted string that the end of the text cuts. -/
def OpenQuote (s : Bytes) : Prop :=
  ∃ (quote : Byte) (body : Bytes), (quote = '"' ∨ quote = '\'') ∧
    quote ∉ body ∧ s = quote :: body

namespace Spells

theorem append {ts us : List ConfigToken} {s mid rest : Bytes}
    (h : Spells ts s mid) (h' : Spells us mid rest) : Spells (ts ++ us) s rest := by
  induction h with
  | done => exact h'
  | blank hc _ ih => exact .blank hc (ih h')
  | comment hb hc _ ih => exact .comment hb hc (ih h')
  | semicolon _ ih => exact .semicolon (ih h')
  | openBrace _ ih => exact .openBrace (ih h')
  | closeBrace _ ih => exact .closeBrace (ih h')
  | quoted hq _ ih => exact .quoted hq (ih h')
  | bare hw hc _ ih => exact .bare hw hc (ih h')

/-- Every word of a spelled sequence is a token text. -/
theorem isWord {ts : List ConfigToken} {s rest : Bytes} (h : Spells ts s rest) :
    ∀ w, .word w ∈ ts → IsWord w := by
  induction h with
  | done => exact fun w hw => nomatch hw
  | blank _ _ ih | comment _ _ _ ih => exact ih
  | semicolon _ ih | openBrace _ ih | closeBrace _ ih =>
    intro w hw
    exact ih w (by simpa using hw)
  | quoted hq _ ih =>
    intro w hw
    rcases List.mem_cons.mp hw with hw | hw
    · cases hw
      exact .inr hq
    · exact ih w hw
  | bare hb _ _ ih =>
    intro w hw
    rcases List.mem_cons.mp hw with hw | hw
    · cases hw
      exact .inl hb
    · exact ih w hw

end Spells

/-! ## The lexer reads each piece -/

theorem parseTokenLoop_normal (value w : Bytes) (c : Byte) (s : Bytes)
    (hw : ∀ d ∈ w, ¬ EndsWord d) (hc : EndsWord c) :
    parseTokenLoop .tokenTypeNormal value (w ++ c :: s) = ⟨.normal, value ++ w, c :: s⟩ := by
  induction w generalizing value with
  | nil =>
    rw [List.nil_append, parseTokenLoop, List.append_nil, if_pos]
    rcases hc with rfl | rfl | rfl | rfl | rfl | rfl <;> decide
  | cons d w ih =>
    obtain ⟨hd, hw⟩ := List.forall_mem_cons.mp hw
    rw [List.cons_append, parseTokenLoop, if_neg, ih _ hw, List.append_assoc]
    · rfl
    · unfold EndsWord at hd
      tauto

theorem parseTokenLoop_normal_eof (value w : Bytes) (hw : ∀ d ∈ w, ¬ EndsWord d) :
    (parseTokenLoop .tokenTypeNormal value w).type = .eof := by
  induction w generalizing value with
  | nil => rfl
  | cons d w ih =>
    obtain ⟨hd, hw⟩ := List.forall_mem_cons.mp hw
    rw [parseTokenLoop, if_neg, ih _ hw]
    unfold EndsWord at hd
    tauto

theorem parseTokenLoop_comment (value body : Bytes) (c : Byte) (s : Bytes)
    (hb : ∀ d ∈ body, ¬ EndsComment d) (hc : EndsComment c) :
    parseTokenLoop .tokenTypeComment value (body ++ c :: s) =
      ⟨.comment, value ++ body, s⟩ := by
  induction body generalizing value with
  | nil =>
    unfold EndsComment at hc
    rw [List.nil_append, parseTokenLoop, if_pos hc, List.append_nil]
  | cons d body ih =>
    obtain ⟨hd, hb⟩ := List.forall_mem_cons.mp hb
    unfold EndsComment at hd
    rw [List.cons_append, parseTokenLoop, if_neg hd, ih _ hb, List.append_assoc]
    rfl

theorem parseTokenLoop_comment_eof (value body : Bytes) (hb : ∀ d ∈ body, ¬ EndsComment d) :
    (parseTokenLoop .tokenTypeComment value body).type = .eof := by
  induction body generalizing value with
  | nil => rfl
  | cons d body ih =>
    obtain ⟨hd, hb⟩ := List.forall_mem_cons.mp hb
    unfold EndsComment at hd
    rw [parseTokenLoop, if_neg hd, ih _ hb]

/-- The lexer state inside a quoted string. -/
def quoteState (quote : Byte) : TokenParserState :=
  if quote = '"' then .doubleQuote else .singleQuote

theorem parseTokenLoop_quote_cons {quote : Byte} (hq : quote = '"' ∨ quote = '\'')
    (value : Bytes) (d : Byte) (s : Bytes) :
    parseTokenLoop (quoteState quote) value (d :: s) =
      if d = quote then ⟨.normal, value ++ [d], s⟩
      else parseTokenLoop (quoteState quote) (value ++ [d]) s := by
  rcases hq with rfl | rfl <;> rfl

theorem parseTokenLoop_quote {quote : Byte} (hq : quote = '"' ∨ quote = '\'')
    (value body s : Bytes) (hb : quote ∉ body) :
    parseTokenLoop (quoteState quote) value (body ++ quote :: s) =
      ⟨.normal, value ++ body ++ [quote], s⟩ := by
  induction body generalizing value with
  | nil => rw [List.nil_append, parseTokenLoop_quote_cons hq, if_pos rfl, List.append_nil]
  | cons d body ih =>
    obtain ⟨hd, hb⟩ := not_or.mp (mt List.mem_cons.mpr hb)
    rw [List.cons_append, parseTokenLoop_quote_cons hq, if_neg (Ne.symm hd), ih _ hb]
    simp

theorem parseTokenLoop_quote_error {quote : Byte} (hq : quote = '"' ∨ quote = '\'')
    (value body : Bytes) (hb : quote ∉ body) :
    (parseTokenLoop (quoteState quote) value body).type = .error := by
  induction body generalizing value with
  | nil => rcases hq with rfl | rfl <;> rfl
  | cons d body ih =>
    obtain ⟨hd, hb⟩ := not_or.mp (mt List.mem_cons.mpr hb)
    rw [parseTokenLoop_quote_cons hq, if_neg (Ne.symm hd), ih _ hb]

theorem parseToken_blank {c : Byte} (hc : IsBlank c) (s : Bytes) :
    parseToken (c :: s) = parseToken s := by
  rcases hc with rfl | rfl | rfl | rfl <;> rfl

theorem parseToken_comment (body : Bytes) (c : Byte) (s : Bytes)
    (hb : ∀ d ∈ body, ¬ EndsComment d) (hc : EndsComment c) :
    parseToken (('#' : Byte) :: body ++ c :: s) = ⟨.comment, '#' :: body, s⟩ :=
  parseTokenLoop_comment ['#'] body c s hb hc

theorem parseToken_quote_cons {quote : Byte} (hq : quote = '"' ∨ quote = '\'') (s : Bytes) :
    parseToken (quote :: s) = parseTokenLoop (quoteState quote) [quote] s := by
  rcases hq with rfl | rfl <;> rfl

theorem parseToken_quoted {q : Bytes} (hq : Quoted q) (s : Bytes) :
    parseToken (q ++ s) = ⟨.normal, q, s⟩ := by
  obtain ⟨quote, body, hquote, hb, rfl⟩ := hq
  have hloop := parseTokenLoop_quote hquote [quote] body s hb
  simpa [parseToken_quote_cons hquote] using hloop

theorem parseToken_startsWord {c : Byte} (hc : StartsWord c) (s : Bytes) :
    parseToken (c :: s) = parseTokenLoop .tokenTypeNormal [c] s := by
  obtain ⟨hblank, hends, hdq, hsq, hhash⟩ := hc
  simp only [IsBlank, EndsWord, not_or] at hblank hends
  rw [parseToken, parseTokenLoop, if_neg hends.2.2.2.2.1, if_neg hends.2.2.2.2.2, if_neg hhash,
    if_neg hdq, if_neg hsq, if_neg hends.2.2.2.1, if_neg (by tauto)]
  rfl

theorem parseToken_bare {w : Bytes} (hw : BareWord w) {c : Byte} (hc : EndsWord c) (s : Bytes) :
    parseToken (w ++ c :: s) = ⟨.normal, w, c :: s⟩ := by
  cases w with
  | nil => exact hw.elim
  | cons d w =>
    rw [List.cons_append, parseToken_startsWord hw.1, parseTokenLoop_normal [d] w c s hw.2 hc]
    rfl

/-! ## Reading a spelled text -/

/-- The loop of `Parse` gets from `s` to `rest` as the zipper takes the tokens
`ts`, and it fails if the zipper rejects one. -/
def ReadsAs (ts : List ConfigToken) (s rest : Bytes) : Prop :=
  ∀ st z, Represents st z →
    match z.feedAll ts with
    | some z' => ∃ st', Represents st' z' ∧ parseFrom st s = parseFrom st' rest
    | none => (parseFrom st s).1 = false

/-- One token, read with the text `s'` left, and then those of `s'`. -/
theorem ReadsAs.token {t : ConfigToken} {ts : List ConfigToken} {s s' rest value : Bytes}
    (h : ReadsAs ts s' rest) (htoken : parseToken s = ⟨t.type, value, s'⟩)
    (hvalue : ∀ w, t = .word w → value = w) : ReadsAs (t :: ts) s rest := by
  intro st z hrep
  have hstep := hrep.step t value hvalue
  rw [parseFrom_eq, htoken, Zipper.feedAll]
  cases hfeed : z.feed t with
  | none =>
    rw [hfeed] at hstep
    obtain ⟨st', hst'⟩ := hstep
    simp [hst']
  | some z' =>
    rw [hfeed] at hstep
    obtain ⟨st', hst', hrep'⟩ := hstep
    simpa [hst'] using h st' z' hrep'

/-- Text that the loop passes over. -/
theorem ReadsAs.skip {ts : List ConfigToken} {s s' rest : Bytes} (h : ReadsAs ts s' rest)
    (hskip : ∀ st, parseFrom st s = parseFrom st s') : ReadsAs ts s rest := by
  intro st z hrep
  rw [hskip st]
  exact h st z hrep

/-- **A spelled prefix is read token by token**: the loop of `Parse` stands
after it where the zipper stands after its tokens, or has rejected one. -/
theorem Spells.readsAs {ts : List ConfigToken} {s rest : Bytes} (h : Spells ts s rest) :
    ReadsAs ts s rest := by
  induction h with
  | done => exact fun st z hrep => ⟨st, hrep, rfl⟩
  | @blank c ts s rest hc _ ih =>
    refine ih.skip fun st => ?_
    rw [parseFrom_eq, parseToken_blank hc, ← parseFrom_eq]
  | @comment c body ts s rest hb hc _ ih =>
    refine ih.skip fun st => ?_
    rw [parseFrom_eq, parseToken_comment body c s hb hc]
    rfl
  | semicolon _ ih => exact ih.token (t := .semicolon) rfl (fun _ h => nomatch h)
  | openBrace _ ih => exact ih.token (t := .openBrace) rfl (fun _ h => nomatch h)
  | closeBrace _ ih => exact ih.token (t := .closeBrace) rfl (fun _ h => nomatch h)
  | @quoted q ts s rest hq _ ih =>
    exact ih.token (t := .word q) (parseToken_quoted hq s) (fun _ h => ConfigToken.word.inj h)
  | @bare w c ts s rest hw hc _ ih =>
    exact ih.token (t := .word w) (parseToken_bare hw hc s) (fun _ h => ConfigToken.word.inj h)

/-- Where a text can stop after its last spelled token. -/
inductive TextEnd : Bytes → Prop
  | nil : TextEnd []
  | comment {s : Bytes} : OpenComment s → TextEnd s
  | quote {s : Bytes} : OpenQuote s → TextEnd s
  | word {w : Bytes} : BareWord w → TextEnd w

/-- **Every text is a spelling with an end**, by taking one lexical piece after
another off its front. -/
theorem exists_spells (s : Bytes) : ∃ ts rest, Spells ts s rest ∧ TextEnd rest := by
  induction hn : s.length using Nat.strongRecOn generalizing s with
  | _ n ih =>
    subst hn
    cases s with
    | nil => exact ⟨[], [], .done, .nil⟩
    | cons c s =>
      -- a blank is skipped
      by_cases hblank : IsBlank c
      · obtain ⟨ts, rest, h, hend⟩ := ih s.length (by simp) s rfl
        exact ⟨ts, rest, .blank hblank h, hend⟩
      -- punctuation is a token by itself
      by_cases hpunct : c = ';' ∨ c = '{' ∨ c = '}'
      · obtain ⟨ts, rest, h, hend⟩ := ih s.length (by simp) s rfl
        rcases hpunct with rfl | rfl | rfl
        · exact ⟨_, rest, .semicolon h, hend⟩
        · exact ⟨_, rest, .openBrace h, hend⟩
        · exact ⟨_, rest, .closeBrace h, hend⟩
      -- a comment goes to the end of its line, or the text ends in it
      by_cases hhash : c = '#'
      · subst hhash
        rcases exists_cut EndsComment s with hall | ⟨body, d, tail, rfl, hbody, hd⟩
        · exact ⟨[], _, .done, .comment ⟨s, hall, rfl⟩⟩
        · obtain ⟨ts, rest, h, hend⟩ := ih tail.length (by simp; omega) tail rfl
          exact ⟨ts, rest, .comment hbody hd h, hend⟩
      -- a quoted string goes to the next quote, or the text ends in it
      by_cases hquote : c = '"' ∨ c = '\''
      · rcases exists_cut (· = c) s with hall | ⟨body, d, tail, rfl, hbody, rfl⟩
        · exact ⟨[], _, .done, .quote ⟨c, s, hquote, fun hc => hall c hc rfl, rfl⟩⟩
        · obtain ⟨ts, rest, h, hend⟩ := ih tail.length (by simp; omega) tail rfl
          have hq : Quoted (d :: body ++ [d]) :=
            ⟨d, body, hquote, fun hc => hbody d hc rfl, rfl⟩
          exact ⟨_, rest, by simpa using Spells.quoted hq h, hend⟩
      -- anything else begins a bare word
      have hstart : StartsWord c := by
        unfold StartsWord EndsWord IsBlank at *
        tauto
      rcases exists_cut EndsWord s with hall | ⟨body, d, tail, rfl, hbody, hd⟩
      · exact ⟨[], _, .done, .word ⟨hstart, hall⟩⟩
      · have hlt : (d :: tail).length < (c :: (body ++ d :: tail)).length := by
          rw [List.length_cons (a := c), List.length_append]
          omega
        obtain ⟨ts, rest, h, hend⟩ := ih (d :: tail).length hlt (d :: tail) rfl
        exact ⟨_, rest, .bare (w := c :: body) ⟨hstart, hbody⟩ hd h, hend⟩

/-! ## When `Parse` accepts -/

theorem parseToken_openQuote {rest : Bytes} (h : OpenQuote rest) :
    (parseToken rest).type = .error := by
  obtain ⟨quote, body, hq, hb, rfl⟩ := h
  rw [parseToken_quote_cons hq]
  exact parseTokenLoop_quote_error hq _ body hb

/-- At the end of the text the lexer returns end of file, unless a quote is
open. -/
theorem parseToken_textEnd {rest : Bytes} (hend : TextEnd rest) (hq : ¬ OpenQuote rest) :
    (parseToken rest).type = .eof := by
  cases hend with
  | nil => rfl
  | comment h =>
    obtain ⟨body, hb, rfl⟩ := h
    exact parseTokenLoop_comment_eof ['#'] body hb
  | quote h => exact absurd h hq
  | word h =>
    cases rest with
    | nil => exact h.elim
    | cons d w =>
      rw [parseToken_startsWord h.1]
      exact parseTokenLoop_normal_eof _ w h.2

/-- Where the text ends the loop ends; a bare word that nothing ends is dropped
with it. -/
theorem parseFrom_textEnd {rest : Bytes} (hend : TextEnd rest) {st : ParserState} {z : Zipper}
    (hrep : Represents st z) (c : NginxConfig) :
    parseFrom st rest = (true, c) ↔
      ¬ OpenQuote rest ∧ z.context = [] ∧ z.opened = [] ∧ z.closed ≠ [] ∧ z.closed = c := by
  by_cases hq : OpenQuote rest
  · rw [parseFrom_eq, parseToken_openQuote hq]
    simp [parseStep, hq]
  · have h := hrep.eof (parseToken rest).value
    rw [parseFrom_eq, parseToken_textEnd hend hq]
    split_ifs at h with hz
    · obtain ⟨st', hst', hconfig⟩ := h
      simp [hst', hconfig, hz, hq]
    · obtain ⟨st', hst'⟩ := h
      rw [hst']
      simp only [Prod.mk.injEq, Bool.false_eq_true, false_and, false_iff]
      tauto

/-- **When `Parse` accepts a text, and with which tree**: the spelled tokens are
those of a well-formed tree, and no quote is open at the end. -/
theorem Spells.parse_eq_true_iff {ts : List ConfigToken} {s rest : Bytes}
    (h : Spells ts s rest) (hend : TextEnd rest) (c : NginxConfig) :
    parse s [] = (true, c) ↔
      ¬ OpenQuote rest ∧ (c.WellFormedWith fun _ => True) ∧ c.flatten = ts := by
  have hrun := h.readsAs _ _ Represents.init
  have hinit := @Zipper.feedAll_init_iff ts c
  rw [parse_eq]
  cases hz : Zipper.init.feedAll ts with
  | none =>
    rw [hz] at hrun hinit
    constructor
    · intro htrue
      rw [htrue] at hrun
      cases hrun
    · rintro ⟨-, hwf, hflat⟩
      exact absurd (hinit.mpr ⟨hwf.2, hflat⟩) (by simp)
  | some z =>
    rw [hz] at hrun hinit
    obtain ⟨st, hrep, heq⟩ := hrun
    rw [heq, parseFrom_textEnd hend hrep]
    obtain ⟨context, closed, opened⟩ := z
    simp only [Option.some.injEq, Zipper.mk.injEq] at hinit
    unfold NginxConfig.WellFormedWith
    constructor
    · rintro ⟨hq, hctx, hop, hne, rfl⟩
      obtain ⟨hwf, hflat⟩ := hinit.mp ⟨hctx, rfl, hop⟩
      exact ⟨hq, ⟨hne, hwf⟩, hflat⟩
    · rintro ⟨hq, ⟨hne, hwf⟩, hflat⟩
      obtain ⟨hctx, rfl, hop⟩ := hinit.mpr ⟨hwf, hflat⟩
      exact ⟨hq, hctx, hop, hne, rfl⟩

end GittyUp
