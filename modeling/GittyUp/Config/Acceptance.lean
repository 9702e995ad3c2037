import GittyUp.Config.Spelling

/-!
# Which texts `Parse` accepts

`Parse` is documented to return true iff the config file is valid. `ValidText`
is the grammar of valid files; `LooseWord` the one kind of invalid file that is
accepted all the same: a valid config followed by a bare word that runs to the
end of the text. There `ParseToken` reaches the end of the stream inside the
word and returns `TOKEN_TYPE_EOF`, so the word is dropped.
-/

namespace GittyUp

open Lib

/-- The whole text `s` spells the tokens `ts`: the end of the text may cut a
comment, and it ends a bare word. -/
inductive SpellsText : List ConfigToken → Bytes → Prop
  | closed {ts : List ConfigToken} {s : Bytes} : Spells ts s [] → SpellsText ts s
  | comment {ts : List ConfigToken} {s rest : Bytes} :
      Spells ts s rest → OpenComment rest → SpellsText ts s
  | word {ts : List ConfigToken} {s w : Bytes} :
      Spells ts s w → BareWord w → SpellsText (ts ++ [.word w]) s

/-- A valid config file: the whole text, comments removed, is one or more
statements. -/
def ValidText (s : Bytes) : Prop := ∃ ts, SpellsText ts s ∧ Statements ts

/-- One or more statements followed by a bare word that runs to the end of the
text. -/
def LooseWord (s : Bytes) : Prop := ∃ ts w, Spells ts s w ∧ BareWord w ∧ Statements ts

/-- A statement ends with punctuation. -/
theorem Statements.getLast {ts : List ConfigToken} (h : Statements ts) :
    ∃ us t, ts = us ++ [t] ∧ (t = .semicolon ∨ t = .closeBrace) := by
  induction h with
  | leaf => exact ⟨_, _, rfl, .inl rfl⟩
  | block => exact ⟨_, _, rfl, .inr rfl⟩
  | append _ _ _ ihu =>
    obtain ⟨us, t, rfl, ht⟩ := ihu
    exact ⟨_, t, (List.append_assoc ..).symm, ht⟩

theorem not_statements_word (ts : List ConfigToken) (w : Bytes) :
    ¬ Statements (ts ++ [.word w]) := by
  intro h
  obtain ⟨us, t, heq, ht⟩ := h.getLast
  obtain ⟨-, rfl⟩ := List.append_inj' heq rfl |>.imp id List.singleton_inj.mp
  simp at ht

theorem not_statements_semicolon {ts : List ConfigToken} (h : Statements ts) :
    ¬ Statements (ts ++ [.semicolon]) := by
  intro hsemi
  obtain ⟨c, hc, rfl⟩ := statements_iff.mp h
  obtain ⟨d, hd, heq⟩ := statements_iff.mp hsemi
  -- between two statements the zipper reads no `;`
  have hfeed := Zipper.feedAll_init_iff.mpr ⟨hd.2, heq⟩
  rw [Zipper.feedAll_append, Zipper.feedAll_init_iff.mpr ⟨hc.2, rfl⟩] at hfeed
  simp [Zipper.feedAll, Zipper.feed] at hfeed

/-- The texts `Parse` accepts, by their spellings. -/
theorem Spells.parse_iff {ts : List ConfigToken} {s rest : Bytes}
    (h : Spells ts s rest) (hend : TextEnd rest) :
    (parse s []).1 = true ↔ ¬ OpenQuote rest ∧ Statements ts := by
  rw [statements_iff]
  constructor
  · intro htrue
    obtain ⟨hq, hwf, hflat⟩ := (h.parse_eq_true_iff hend (parse s []).2).mp
      (Prod.ext htrue rfl)
    exact ⟨hq, _, hwf, hflat⟩
  · rintro ⟨hq, c, hwf, hflat⟩
    rw [(h.parse_eq_true_iff hend c).mpr ⟨hq, hwf, hflat⟩]

theorem not_openQuote_of_bareWord {w : Bytes} (hw : BareWord w) : ¬ OpenQuote w := by
  rintro ⟨quote, body, hquote, -, rfl⟩
  obtain ⟨-, -, hdq, hsq, -⟩ := hw.1
  exact hquote.elim hdq hsq

theorem not_openQuote_of_openComment {s : Bytes} (hs : OpenComment s) : ¬ OpenQuote s := by
  obtain ⟨body, -, rfl⟩ := hs
  rintro ⟨quote, body', hquote, -, heq⟩
  obtain ⟨rfl, -⟩ := List.cons.inj heq
  revert hquote
  decide

/-- `Parse` accepts the valid files, and those with a loose word. -/
theorem parse_true_iff (s : Bytes) :
    (parse s []).1 = true ↔ ValidText s ∨ LooseWord s := by
  constructor
  · intro htrue
    obtain ⟨ts, rest, h, hend⟩ := exists_spells s
    obtain ⟨hq, hst⟩ := (h.parse_iff hend).mp htrue
    cases hend with
    | nil => exact .inl ⟨ts, .closed h, hst⟩
    | comment hc => exact .inl ⟨ts, .comment h hc, hst⟩
    | quote hq' => exact absurd hq' hq
    | word hw => exact .inr ⟨ts, rest, h, hw, hst⟩
  · rintro (⟨ts, h, hst⟩ | ⟨ts, w, h, hw, hst⟩)
    · cases h with
      | closed h => exact (h.parse_iff .nil).mpr ⟨by simp [OpenQuote], hst⟩
      | comment h hc =>
        exact (h.parse_iff (.comment hc)).mpr ⟨not_openQuote_of_openComment hc, hst⟩
      -- the last token of a statement is punctuation
      | word h hw => exact absurd hst (not_statements_word _ _)
    · exact (h.parse_iff (.word hw)).mpr ⟨not_openQuote_of_bareWord hw, hst⟩

/-- A spelling goes through when more text follows. -/
theorem Spells.extend {ts : List ConfigToken} {s rest : Bytes} (h : Spells ts s rest)
    (u : Bytes) : Spells ts (s ++ u) (rest ++ u) := by
  induction h with
  | done => exact .done
  | blank hc _ ih => exact .blank hc ih
  | comment hb hc _ ih => simpa using Spells.comment hb hc ih
  | semicolon _ ih => exact .semicolon ih
  | openBrace _ ih => exact .openBrace ih
  | closeBrace _ ih => exact .closeBrace ih
  | quoted hq _ ih => simpa using Spells.quoted hq ih
  | bare hw hc _ ih => simpa using Spells.bare hw hc ih

/-- No file is both: after a newline and a `;` the loose word is a statement,
and in a valid file the `;` has no statement to end. -/
theorem LooseWord.not_validText {s : Bytes} (h : LooseWord s) : ¬ ValidText s := by
  obtain ⟨ts, w, h, hw, hst⟩ := h
  rintro ⟨us, hus, hsu⟩
  have htrue : (parse (s ++ [(10 : Byte), (';' : Byte)]) []).1 = true := by
    have hword : Spells [.word w, .semicolon] (w ++ [(10 : Byte), (';' : Byte)]) [] :=
      .bare hw (by decide) (.blank (by decide) (.semicolon .done))
    exact (((h.extend _).append hword).parse_iff .nil).mpr
      ⟨by simp [OpenQuote], .append hst (@Statements.leaf [w] (by simp))⟩
  have hfalse : ¬ (parse (s ++ [(10 : Byte), (';' : Byte)]) []).1 = true := by
    have hsemi : ∀ rest, Spells [.semicolon] (rest ++ [(10 : Byte), (';' : Byte)]) [] →
        Spells us s rest → ¬ (parse (s ++ [(10 : Byte), (';' : Byte)]) []).1 = true := by
      intro rest hrest hspells htrue
      have hlast := (((hspells.extend _).append hrest).parse_iff .nil).mp htrue
      exact not_statements_semicolon hsu hlast.2
    cases hus with
    | closed hus => exact hsemi [] (.blank (by decide) (.semicolon .done)) hus
    | comment hus hc =>
      obtain ⟨body, hb, rfl⟩ := hc
      exact hsemi _ (.comment hb (by decide) (.semicolon .done)) hus
    | word => exact absurd hsu (not_statements_word _ _)
  exact hfalse htrue

/-- **`Parse` accepts exactly the valid files among those without a loose
word**, and among no others: where the text is a valid config followed by a
bare word that runs to its end, the file is invalid and accepted. -/
theorem parse_iff_validText_iff (s : Bytes) :
    ((parse s []).1 = true ↔ ValidText s) ↔ ¬ LooseWord s := by
  rw [parse_true_iff]
  constructor
  · intro h hloose
    exact hloose.not_validText (h.mp (.inr hloose))
  · intro hloose
    exact ⟨fun h => h.resolve_right hloose, .inl⟩

/-- `"port 80;x"`: accepted, but the word `x` belongs to no statement. -/
theorem parse_loose_word :
    ¬ ((parse "port 80;x" []).1 = true ↔ ValidText "port 80;x") := by
  have hloose : LooseWord "port 80;x" := by
    refine ⟨[.word "port", .word "80", .semicolon], "x", ?_, by decide,
      @Statements.leaf ["port", "80"] (by simp)⟩
    have hend : Spells [.semicolon] (";x" : Bytes) ("x" : Bytes) := .semicolon .done
    have h80 : Spells [.word "80", .semicolon] ("80;x" : Bytes) ("x" : Bytes) :=
      .bare (w := "80") (by decide) (by decide) hend
    exact .bare (w := "port") (by decide) (by decide) (.blank (by decide) h80)
  intro h
  exact hloose.not_validText (h.mp ((parse_true_iff _).mpr (.inr hloose)))

end GittyUp
