import GittyUp.Config.Acceptance

/-!
# The layout of a config file

A layout of a token sequence puts a separator (blanks and whole comments) after
every token. `Layout.CleanBeforeStop`: no separator that directly follows a bare
word begins with a carriage return, as far as `Parse` reads. All such layouts of
one sequence parse alike (`sameParse_of_cleanBeforeStop`); any other layout
parses differently from such a one whenever that one is accepted
(`clean_of_sameParse`), because `ParseToken` lists `'\t'` twice among the
characters that end a bare word, and `'\r'` not at all: the carriage return
becomes part of the word. Two texts with such words still parse alike if they
come to spell the same config that way, or none (`sameParse_iff`).
-/

namespace GittyUp

open Lib

/-- Blanks (carriage returns among them) and comments ended by LF or CRLF. -/
inductive Separator : Bytes → Prop
  | nil : Separator []
  | blank {c : Byte} {s : Bytes} : IsBlank c → Separator s → Separator (c :: s)
  | comment {body eol s : Bytes} : (∀ d ∈ body, ¬ EndsComment d) →
      (eol = [(10 : Byte)] ∨ eol = [(13 : Byte), (10 : Byte)]) → Separator s →
      Separator (('#' : Byte) :: body ++ eol ++ s)

/-- A bare word free of carriage returns as well. -/
def ConfigToken.IsBare : ConfigToken → Prop
  | .word w => BareWord w ∧ (13 : Byte) ∉ w
  | _ => False

/-- A token that a layout may contain. -/
def ConfigToken.Admissible : ConfigToken → Prop
  | .word w => (BareWord w ∧ (13 : Byte) ∉ w) ∨ Quoted w
  | _ => True

/-- The separator `sep` may stand between a bare word and the tokens `next`: a
word must be kept apart, and a comment may not begin right at the word. -/
def FollowsBare (sep : Bytes) (next : List ConfigToken) : Prop :=
  (sep = [] → ∀ w ts, next ≠ .word w :: ts) ∧ (∀ c s, sep = c :: s → IsBlank c)

/-- Tokens with the separators after them. -/
inductive Laid : List (ConfigToken × Bytes) → Prop
  | nil : Laid []
  | cons {t : ConfigToken} {sep : Bytes} {pieces : List (ConfigToken × Bytes)} :
      t.Admissible → Separator sep → (t.IsBare → FollowsBare sep (pieces.map Prod.fst)) →
      Laid pieces → Laid ((t, sep) :: pieces)

/-- A layout of the token sequence `ts`. -/
structure Layout (ts : List ConfigToken) where
  lead : Bytes
  pieces : List (ConfigToken × Bytes)
  lead_separator : Separator lead
  laid : Laid pieces
  tokens_eq : pieces.map Prod.fst = ts

/-- The text of tokens with their separators. -/
def piecesText (pieces : List (ConfigToken × Bytes)) : Bytes :=
  pieces.flatMap fun p => p.1.text ++ p.2

/-- The text a layout spells. -/
def Layout.text {ts : List ConfigToken} (L : Layout ts) : Bytes :=
  L.lead ++ piecesText L.pieces

/-- A separator right after a bare word does not begin with a carriage return. -/
def CleanPiece (p : ConfigToken × Bytes) : Prop :=
  p.1.IsBare → p.2.head? ≠ some 13

/-- No separator that directly follows a bare word begins with a carriage
return. -/
def Layout.Clean {ts : List ConfigToken} (L : Layout ts) : Prop :=
  ∀ p ∈ L.pieces, CleanPiece p

/-- The same of the separators that `Parse` reads before it stops: it reads on
after a token as long as some config begins with the tokens so far. -/
def Layout.CleanBeforeStop {ts : List ConfigToken} (L : Layout ts) : Prop :=
  ∀ before p after, L.pieces = before ++ p :: after →
    Viable ((before ++ [p]).map Prod.fst) → CleanPiece p

/-- The text spells the config `ts` where a carriage return behind a bare word is
one more character of the word, as are all that follow it up to the next space,
tab, newline, `;`, `{` or `}`. -/
def SpellsConfig (s : Bytes) (ts : List ConfigToken) : Prop :=
  Statements ts ∧ ∃ rest, Spells ts s rest ∧ TextEnd rest ∧ ¬ OpenQuote rest

/-- The sequence ends in `;` or `}`. -/
def EndsStatement (ts : List ConfigToken) : Prop :=
  ∃ us t, ts = us ++ [t] ∧ (t = .semicolon ∨ t = .closeBrace)

/-- `Parse` returns the same flag on both texts and, when it is true, equal
trees. -/
def SameParse (s₁ s₂ : Bytes) : Prop :=
  (parse s₁ []).1 = (parse s₂ []).1 ∧
    ((parse s₁ []).1 = true → (parse s₁ []).2 = (parse s₂ []).2)

/-! ## Clean layouts spell their tokens -/

theorem Separator.spells {sep : Bytes} (h : Separator sep) (s : Bytes) :
    Spells [] (sep ++ s) s := by
  induction h with
  | nil => exact .done
  | blank hc _ ih => exact .blank hc ih
  | @comment body eol sep hb heol _ ih =>
    rcases heol with rfl | rfl
    · simpa using Spells.comment hb (.inl rfl) ih
    · simpa using Spells.comment hb (.inr rfl) (Spells.blank (c := 10) (by decide) ih)

/-- Punctuation and quoted strings end where they end, whatever follows. -/
theorem spells_text {t : ConfigToken} (ht : t.Admissible) (hb : ¬ t.IsBare) (s : Bytes) :
    Spells [t] (t.text ++ s) s := by
  cases t with
  | word w => exact .quoted (ht.resolve_left hb) .done
  | semicolon => exact .semicolon .done
  | openBrace => exact .openBrace .done
  | closeBrace => exact .closeBrace .done

/-- What comes after a bare word in a clean layout ends it: the separator, or
the punctuation that follows at once. -/
theorem exists_endsWord {sep : Bytes} {pieces : List (ConfigToken × Bytes)}
    (hsep : FollowsBare sep (pieces.map Prod.fst)) (hclean : sep.head? ≠ some 13)
    (hne : sep = [] → pieces ≠ []) :
    ∃ c s, sep ++ piecesText pieces = c :: s ∧ EndsWord c := by
  cases sep with
  | cons c sep =>
    refine ⟨c, _, rfl, ?_⟩
    rcases hsep.2 c sep rfl with rfl | rfl | rfl | rfl
    · exact .inl rfl
    · exact .inr (.inl rfl)
    · exact .inr (.inr (.inl rfl))
    · exact absurd rfl hclean
  | nil =>
    cases pieces with
    | nil => exact absurd rfl (hne rfl)
    | cons p pieces =>
      obtain ⟨t, sep⟩ := p
      cases t with
      | word w => exact absurd rfl (hsep.1 rfl w _)
      | semicolon => exact ⟨';', _, rfl, by decide⟩
      | openBrace => exact ⟨'{', _, rfl, by decide⟩
      | closeBrace => exact ⟨'}', _, rfl, by decide⟩

/-- Clean pieces spell their tokens up to whatever piece comes next; a bare
word at the very end needs something to end it. -/
theorem Laid.spells {pieces later : List (ConfigToken × Bytes)}
    (h : Laid (pieces ++ later)) (hclean : ∀ p ∈ pieces, CleanPiece p)
    (hend : later ≠ [] ∨ EndsStatement (pieces.map Prod.fst) ∨ pieces = []) :
    Spells (pieces.map Prod.fst) (piecesText pieces ++ piecesText later)
      (piecesText later) := by
  induction pieces with
  | nil => exact .done
  | cons p pieces ih =>
    obtain ⟨t, sep⟩ := p
    obtain ⟨hp, hclean⟩ := List.forall_mem_cons.mp hclean
    rw [List.cons_append] at h
    cases h with
    | cons hadm hsep hbare hlaid =>
      have hend' : later ≠ [] ∨ EndsStatement (pieces.map Prod.fst) ∨ pieces = [] := by
        rcases hend with hl | ⟨us, u, heq, hu⟩ | hnil
        · exact .inl hl
        · right
          cases us with
          | nil =>
            right
            simpa using (List.cons.inj heq).2
          | cons v us => exact .inl ⟨us, u, (List.cons.inj heq).2, hu⟩
        · cases hnil
      have hrest := (hsep.spells _).append (ih hlaid hclean hend')
      rw [List.map_cons, piecesText, List.flatMap_cons, ← piecesText]
      simp only [List.append_assoc] at hrest ⊢
      by_cases hb : t.IsBare
      · have hne : sep = [] → pieces ++ later ≠ [] := by
          rintro - hnil
          obtain ⟨rfl, rfl⟩ := List.append_eq_nil_iff.mp hnil
          rcases hend with hl | ⟨us, u, heq, hu⟩ | hnil
          · exact hl rfl
          · obtain ⟨rfl, hu'⟩ : us = [] ∧ t = u := by
              cases us with
              | nil => exact ⟨rfl, (List.cons.inj heq).1⟩
              | cons v us => simp at heq
            subst hu'
            rcases hu with rfl | rfl <;> exact hb.elim
          · cases hnil
        obtain ⟨c, s, heq, hc⟩ := exists_endsWord (hbare hb) (hp hb) hne
        have heq' : sep ++ (piecesText pieces ++ piecesText later) = c :: s := by
          rw [← heq, piecesText, piecesText, piecesText, List.flatMap_append]
        rw [heq'] at hrest ⊢
        cases t with
        | word w => exact .bare hb.1 hc hrest
        | semicolon | openBrace | closeBrace => exact hb.elim
      · exact (spells_text hadm hb _).append hrest

theorem Layout.spells {ts : List ConfigToken} (L : Layout ts) (hend : EndsStatement ts)
    (hclean : L.Clean) : Spells ts L.text [] := by
  have h := @Laid.spells _ [] (by simpa using L.laid) hclean
    (.inr (.inl (L.tokens_eq.symm ▸ hend)))
  rw [L.tokens_eq] at h
  simpa [Layout.text, piecesText] using (L.lead_separator.spells _).append h

/-- **Clean layouts parse alike.** -/
theorem sameParse_of_clean {ts : List ConfigToken} (hend : EndsStatement ts)
    (L₁ L₂ : Layout ts) (h₁ : L₁.Clean) (h₂ : L₂.Clean) : SameParse L₁.text L₂.text := by
  have hs₁ := L₁.spells hend h₁
  have hs₂ := L₂.spells hend h₂
  have hflag : (parse L₁.text []).1 = (parse L₂.text []).1 := by
    rw [Bool.eq_iff_iff, hs₁.parse_iff .nil, hs₂.parse_iff .nil]
  refine ⟨hflag, fun htrue => ?_⟩
  have hp₁ : parse L₁.text [] = (true, (parse L₁.text []).2) := Prod.ext htrue rfl
  have hp₂ := (hs₂.parse_eq_true_iff .nil _).mpr ((hs₁.parse_eq_true_iff .nil _).mp hp₁)
  rw [hp₂]

/-- Layouts spell the tokens before a piece if all pieces before it are clean. -/
theorem Layout.spells_before {ts : List ConfigToken} (L : Layout ts)
    {before after : List (ConfigToken × Bytes)} {p : ConfigToken × Bytes}
    (hpieces : L.pieces = before ++ p :: after) (hclean : ∀ q ∈ before, CleanPiece q) :
    Spells (before.map Prod.fst) L.text (p.1.text ++ (p.2 ++ piecesText after)) := by
  have hlaid := L.laid
  rw [hpieces] at hlaid
  have hspells := (L.lead_separator.spells _).append
    (Laid.spells hlaid hclean (.inl (List.cons_ne_nil _ _)))
  simpa [Layout.text, piecesText, hpieces] using hspells

/-! ## Only what is read before the stop matters -/

theorem Layout.cleanBeforeStop_iff {ts : List ConfigToken} (hts : Viable ts) (L : Layout ts) :
    L.CleanBeforeStop ↔ L.Clean := by
  constructor
  · intro h p hp
    obtain ⟨before, after, hpieces⟩ := List.append_of_mem hp
    have hwhole : Viable ((before ++ [p]).map Prod.fst ++ after.map Prod.fst) := by
      rw [← List.map_append, List.append_assoc, List.singleton_append, ← hpieces, L.tokens_eq]
      exact hts
    exact h before p after hpieces hwhole.of_append
  · intro h before p after hpieces _
    exact h p (by simp [hpieces])

/-- `Parse` stops at the first token that no config can go on with, and rejects
the text whatever is laid out behind it. -/
theorem Layout.parse_eq_false {ts : List ConfigToken} (hts : ¬ Viable ts) (L : Layout ts)
    (h : L.CleanBeforeStop) : (parse L.text []).1 = false := by
  obtain ⟨us, t, vs, htokens, hus, hstop⟩ := exists_stop hts
  obtain ⟨before, later, hpieces, rfl, hlater⟩ :=
    List.map_eq_append_iff.mp (L.tokens_eq.trans htokens)
  obtain ⟨⟨t, sep⟩, after, rfl, rfl, -⟩ := List.map_eq_cons_iff.mp hlater
  have hclean : ∀ q ∈ before, CleanPiece q := by
    intro q hq
    obtain ⟨first, second, rfl⟩ := List.append_of_mem hq
    refine h first q (second ++ (t, sep) :: after) (by simp [hpieces]) ?_
    have hread : Viable ((first ++ [q]).map Prod.fst ++ second.map Prod.fst) := by
      simpa using hus
    exact hread.of_append
  have hspells := L.spells_before hpieces hclean
  -- the stop is punctuation, which ends where it ends
  have ht : Spells [t] (t.text ++ (sep ++ piecesText after)) (sep ++ piecesText after) := by
    cases t with
    | word w => exact absurd (hus.word w) hstop
    | semicolon => exact .semicolon .done
    | openBrace => exact .openBrace .done
    | closeBrace => exact .closeBrace .done
  obtain ⟨ws, rest, hws, hrest⟩ := exists_spells (sep ++ piecesText after)
  rw [← Bool.not_eq_true, ((hspells.append ht).append hws).parse_iff hrest]
  exact fun hst => hstop hst.2.viable.of_append

/-- **Layouts that are clean as far as `Parse` reads parse alike.** -/
theorem sameParse_of_cleanBeforeStop {ts : List ConfigToken} (hend : EndsStatement ts)
    (L₁ L₂ : Layout ts) (h₁ : L₁.CleanBeforeStop) (h₂ : L₂.CleanBeforeStop) :
    SameParse L₁.text L₂.text := by
  by_cases hts : Viable ts
  · exact sameParse_of_clean hend L₁ L₂ ((L₁.cleanBeforeStop_iff hts).mp h₁)
      ((L₂.cleanBeforeStop_iff hts).mp h₂)
  · have hf₁ := L₁.parse_eq_false hts h₁
    have hf₂ := L₂.parse_eq_false hts h₂
    exact ⟨hf₁.trans hf₂.symm, fun htrue => absurd (hf₁.symm.trans htrue) (by decide)⟩

/-! ## A carriage return after a bare word joins it -/

/-- A bare word stays one when a carriage return and more word characters are
appended. -/
theorem bareWord_append {w x : Bytes} (hw : BareWord w) (hx : ∀ d ∈ x, ¬ EndsWord d) :
    BareWord (w ++ (13 : Byte) :: x) := by
  cases w with
  | nil => exact hw.elim
  | cons c w =>
    refine ⟨hw.1, fun d hd => ?_⟩
    rcases List.mem_append.mp hd with hd | hd
    · exact hw.2 d hd
    · rcases List.mem_cons.mp hd with rfl | hd
      · decide
      · exact hx d hd

/-- A layout that is not clean spells another token sequence: the lexer goes on
through the carriage return to the next character that ends a word. -/
theorem exists_spells_of_not_clean {ts : List ConfigToken} (L : Layout ts)
    (h : ¬ L.Clean) : ∃ us rest, Spells us L.text rest ∧ TextEnd rest ∧ us ≠ ts := by
  classical
  obtain ⟨lead, pieces, hlead, hlaid, rfl⟩ := L
  rcases exists_cut (fun p => ¬ CleanPiece p) pieces with hall |
    ⟨pre, ⟨t, sep⟩, later, rfl, hpre, hdirty⟩
  · exact absurd (fun p hp => not_not.mp (hall p hp)) h
  -- the first word that is followed by a carriage return
  obtain ⟨hb, hhead⟩ : t.IsBare ∧ sep.head? = some 13 := by
    simpa [CleanPiece] using hdirty
  obtain ⟨w, rfl⟩ : ∃ w, t = .word w := by
    cases t with
    | word w => exact ⟨w, rfl⟩
    | semicolon | openBrace | closeBrace => exact hb.elim
  obtain ⟨sep, rfl⟩ : ∃ s, sep = 13 :: s := by
    cases sep with
    | nil => simp at hhead
    | cons c s => exact ⟨s, by rw [Option.some.inj hhead]⟩
  have hspells : Spells (pre.map Prod.fst)
      (lead ++ piecesText (pre ++ (.word w, 13 :: sep) :: later))
      (w ++ (13 : Byte) :: (sep ++ piecesText later)) :=
    Layout.spells_before ⟨lead, _, hlead, hlaid, rfl⟩ rfl fun p hp => not_not.mp (hpre p hp)
  -- it goes on through `x`, up to the next character that ends a word
  rcases exists_cut EndsWord (sep ++ piecesText later) with hall | ⟨x, d, tail, heq, hx, hd⟩
  · exact ⟨_, _, hspells, .word (bareWord_append hb.1 hall), by simp⟩
  · obtain ⟨us, rest, hus, hend⟩ := exists_spells (d :: tail)
    rw [heq] at hspells
    have hword : Spells [.word (w ++ (13 : Byte) :: x)] (w ++ (13 : Byte) :: (x ++ d :: tail))
        (d :: tail) := by
      simpa using Spells.bare (bareWord_append hb.1 hx) hd (@Spells.done (d :: tail))
    exact ⟨_, rest, (hspells.append hword).append hus, hend, by simp⟩

/-- **Next to a clean layout that is accepted, only clean layouts parse the
same.** -/
theorem clean_of_sameParse {ts : List ConfigToken} (hend : EndsStatement ts)
    (hts : Statements ts) (L₁ L₂ : Layout ts) (h₁ : L₁.Clean)
    (h : SameParse L₁.text L₂.text) : L₂.Clean := by
  by_contra h₂
  obtain ⟨us, rest, hus, hrest, hne⟩ := exists_spells_of_not_clean L₂ h₂
  have hs₁ := L₁.spells hend h₁
  have htrue : (parse L₁.text []).1 = true :=
    (hs₁.parse_iff .nil).mpr ⟨by simp [OpenQuote], hts⟩
  have hp₁ : parse L₁.text [] = (true, (parse L₁.text []).2) := Prod.ext htrue rfl
  have hp₂ : parse L₂.text [] = (true, (parse L₁.text []).2) :=
    Prod.ext (h.1 ▸ htrue) (h.2 htrue).symm
  obtain ⟨-, -, hflat₁⟩ := (hs₁.parse_eq_true_iff .nil _).mp hp₁
  obtain ⟨-, -, hflat₂⟩ := (hus.parse_eq_true_iff hrest _).mp hp₂
  exact hne (hflat₂.symm.trans hflat₁)

/-- What `Parse` accepts, and with which tokens in the tree. -/
theorem spellsConfig_iff (s : Bytes) (ts : List ConfigToken) :
    SpellsConfig s ts ↔
      ∃ c : NginxConfig, parse s [] = (true, c) ∧ (c.WellFormedWith fun _ => True) ∧
        c.flatten = ts := by
  constructor
  · rintro ⟨hts, rest, hspells, hrest, hquote⟩
    obtain ⟨c, hc, hflat⟩ := statements_iff.mp hts
    exact ⟨c, (hspells.parse_eq_true_iff hrest c).mpr ⟨hquote, hc, hflat⟩, hc, hflat⟩
  · rintro ⟨c, hparse, hc, rfl⟩
    obtain ⟨us, rest, hspells, hrest⟩ := exists_spells s
    obtain ⟨hquote, -, rfl⟩ := (hspells.parse_eq_true_iff hrest c).mp hparse
    exact ⟨statements_flatten c hc, rest, hspells, hrest, hquote⟩

theorem parse_eq_true_spells {s : Bytes} (htrue : (parse s []).1 = true) :
    ∃ ts, SpellsConfig s ts := by
  obtain ⟨ts, rest, hspells, hrest⟩ := exists_spells s
  obtain ⟨hquote, hts⟩ := (hspells.parse_iff hrest).mp htrue
  exact ⟨ts, hts, rest, hspells, hrest, hquote⟩

/-- The tokens determine the tree. -/
theorem flatten_injective {c d : NginxConfig} (hc : c.WellFormedWith fun _ => True)
    (hd : d.WellFormedWith fun _ => True) (h : c.flatten = d.flatten) : c = d := by
  have hfeed := Zipper.feedAll_init_iff.mpr ⟨hc.2, h⟩
  rw [Zipper.feedAll_init_iff.mpr ⟨hd.2, rfl⟩] at hfeed
  simpa using hfeed.symm

/-- **Two texts parse alike exactly when they spell the same config or none**,
carriage returns behind bare words being read as part of the words. -/
theorem sameParse_iff (s₁ s₂ : Bytes) :
    SameParse s₁ s₂ ↔ ∀ ts, SpellsConfig s₁ ts ↔ SpellsConfig s₂ ts := by
  constructor
  · rintro ⟨hflag, htree⟩ ts
    rw [spellsConfig_iff, spellsConfig_iff]
    refine exists_congr fun c => and_congr_left fun _ => ?_
    rw [Prod.ext_iff, Prod.ext_iff, ← hflag]
    exact and_congr_right fun htrue => by rw [htree htrue]
  · intro h
    have htransfer : ∀ {s t : Bytes}, (∀ ts, SpellsConfig s ts → SpellsConfig t ts) →
        (parse s []).1 = true → parse t [] = (true, (parse s []).2) := by
      intro s t hst htrue
      obtain ⟨ts, hs⟩ := parse_eq_true_spells htrue
      obtain ⟨c, hc, hwfc, hflatc⟩ := (spellsConfig_iff s ts).mp hs
      obtain ⟨d, hd, hwfd, hflatd⟩ := (spellsConfig_iff t ts).mp (hst ts hs)
      rw [hc, hd, flatten_injective hwfd hwfc (hflatd.trans hflatc.symm)]
    have h₁₂ := @htransfer s₁ s₂ fun ts => (h ts).mp
    have h₂₁ := @htransfer s₂ s₁ fun ts => (h ts).mpr
    refine ⟨?_, fun htrue => by rw [h₁₂ htrue]⟩
    rw [Bool.eq_iff_iff]
    exact ⟨fun htrue => by rw [h₁₂ htrue], fun htrue => by rw [h₂₁ htrue]⟩

/-- **Which layouts of a token sequence parse alike**: those that spell the same
config or none once a carriage return behind a bare word is read into it. That
is so of any two layouts that have no such carriage return as far as `Parse`
reads, and where the tokens are a config and one layout has none, only if the
other has none either. -/
theorem layout_sameParse {ts : List ConfigToken} (hend : EndsStatement ts)
    (L₁ L₂ : Layout ts) :
    (SameParse L₁.text L₂.text ↔
      ∀ us, SpellsConfig L₁.text us ↔ SpellsConfig L₂.text us) ∧
    (L₁.CleanBeforeStop → L₂.CleanBeforeStop → SameParse L₁.text L₂.text) ∧
    (Statements ts → L₁.CleanBeforeStop →
      (SameParse L₁.text L₂.text ↔ L₂.CleanBeforeStop)) := by
  have hclean := sameParse_of_cleanBeforeStop hend L₁ L₂
  refine ⟨sameParse_iff _ _, hclean, fun hts h₁ => ⟨fun hsame => ?_, hclean h₁⟩⟩
  have hL₁ := (L₁.cleanBeforeStop_iff hts.viable).mp h₁
  exact (L₂.cleanBeforeStop_iff hts.viable).mpr (clean_of_sameParse hend hts L₁ L₂ hL₁ hsame)

/-! ### LF and CRLF -/

/-- `port<sep>80;` -/
def portLayout (sep : Bytes) (hsep : Separator sep) (hne : sep ≠ [])
    (hblank : ∀ c s, sep = c :: s → IsBlank c) :
    Layout [.word "port", .word "80", .semicolon] where
  lead := []
  pieces := [(.word "port", sep), (.word "80", []), (.semicolon, [])]
  lead_separator := .nil
  laid := .cons (.inl ⟨by decide, by decide⟩) hsep
    (fun _ => ⟨fun h => absurd h hne, hblank⟩)
    (.cons (.inl ⟨by decide, by decide⟩) .nil
      (fun _ => ⟨by simp, by simp⟩) (.cons trivial .nil (fun h => h.elim) .nil))
  tokens_eq := rfl

/-- `port 80;` with an LF in the middle. -/
def portLF : Layout [.word "port", .word "80", .semicolon] :=
  portLayout [10] (.blank (by decide) .nil) (by simp) (by rintro c s ⟨⟩; decide)

/-- `port 80;` with a CRLF in the middle. -/
def portCRLF : Layout [.word "port", .word "80", .semicolon] :=
  portLayout [13, 10] (.blank (by decide) (.blank (by decide) .nil)) (by simp)
    (by rintro c s ⟨⟩; decide)

theorem layout_sameParse_port :
    (SameParse portLF.text portCRLF.text ↔ portCRLF.CleanBeforeStop) :=
  (layout_sameParse ⟨[.word "port", .word "80"], .semicolon, rfl, .inl rfl⟩
      portLF portCRLF).2.2 (@Statements.leaf ["port", "80"] (by simp)) (by
    refine (portLF.cleanBeforeStop_iff
      (Statements.viable (@Statements.leaf ["port", "80"] (by simp)))).mpr fun p hp => ?_
    simp only [portLF, portLayout, List.mem_cons, List.not_mem_nil, or_false] at hp
    rcases hp with rfl | rfl | rfl <;> intro _ <;> decide)

/-- The LF and the CRLF file spell the same tokens and parse differently. -/
theorem not_sameParse_crlf :
    ¬ ∀ (ts : List ConfigToken) (L₁ L₂ : Layout ts), EndsStatement ts →
      SameParse L₁.text L₂.text := by
  intro h
  have hsame := h _ portLF portCRLF ⟨[.word "port", .word "80"], .semicolon, rfl, .inl rfl⟩
  have htext : NginxConfig.toString 0 (parse portLF.text []).2 ≠
      NginxConfig.toString 0 (parse portCRLF.text []).2 := by decide
  exact htext (congrArg (NginxConfig.toString 0) (hsame.2 (by decide)))

end GittyUp
