import GittyUp.Lib.Bytes

/-!
# Reading HTML

A page is read as texts, each with the markup that ends it. Markup begins where
HTML has it begin, and ends at the next `>`: quoted attribute values and comments
are not told from the rest of the markup. A page that is put together from texts
and tags is read back if no text opens markup (`htmlPieces_render`), and if one does
the markup is not that of the tags (`markups_render_iff`).
-/

namespace Lib

/-! ## Texts and markup -/

/-- A `<` before such a character begins markup. -/
def IsOpener (c : Byte) : Prop :=
  ('a' ≤ c ∧ c ≤ 'z') ∨ ('A' ≤ c ∧ c ≤ 'Z') ∨ c = '/' ∨ c = '!' ∨ c = '?'

instance : DecidablePred IsOpener := fun _ => inferInstanceAs (Decidable (_ ∨ _ ∨ _ ∨ _ ∨ _))

/-- What stands behind a `<` makes markup of it. -/
def OpensMarkup : Bytes → Prop
  | [] => False
  | c :: _ => IsOpener c

instance : DecidablePred OpensMarkup
  | [] => inferInstanceAs (Decidable False)
  | c :: _ => inferInstanceAs (Decidable (IsOpener c))

/-- A text that opens no markup. -/
def IsText : Bytes → Prop
  | [] => True
  | c :: s => ¬ (c = '<' ∧ OpensMarkup s) ∧ IsText s

instance decidableIsText : DecidablePred IsText
  | [] => inferInstanceAs (Decidable True)
  | _ :: s =>
    have := decidableIsText s
    inferInstanceAs (Decidable (_ ∧ _))

/-- A tag, with no other `<` or `>` in it. -/
def IsTag (tag : Bytes) : Prop :=
  tag.head? = some ('<' : Byte) ∧ OpensMarkup tag.tail ∧ tag.getLast? = some ('>' : Byte) ∧
    ∀ c ∈ tag.tail.dropLast, c ≠ '<' ∧ c ≠ '>'

instance : DecidablePred IsTag := fun _ => inferInstanceAs (Decidable (_ ∧ _ ∧ _ ∧ _))

/-- A text, and the markup that ends it. -/
abbrev HtmlPiece := Bytes × Bytes

/-- The page that is put together from the pieces. -/
def render (pieces : List HtmlPiece) : Bytes := pieces.flatMap fun p => p.1 ++ p.2

/-- Where the reader is: in a text, or in the markup behind it. -/
inductive HtmlState where
  | data (text : Bytes)
  | markup (text opened : Bytes)

/-- Reading on. Text at the end of a page has the empty markup. -/
def htmlLoop : HtmlState → Bytes → List HtmlPiece
  | .data text, [] => if text = [] then [] else [(text, [])]
  | .markup text opened, [] => [(text, opened)]
  | .data text, c :: s =>
    if c = '<' ∧ OpensMarkup s then htmlLoop (.markup text [c]) s
    else htmlLoop (.data (text ++ [c])) s
  | .markup text opened, c :: s =>
    if c = '>' then (text, opened ++ [c]) :: htmlLoop (.data []) s
    else htmlLoop (.markup text (opened ++ [c])) s

/-- The pieces of a page. -/
def htmlPieces (page : Bytes) : List HtmlPiece := htmlLoop (.data []) page

/-- The markup of a page. -/
def markups (page : Bytes) : List Bytes := (htmlPieces page).map Prod.snd

example : htmlPieces "<p>a < b</p>" = [(lit "", lit "<p>"), (lit "a < b", lit "</p>")] := by decide

/-! ## Reading back -/

theorem isText_of_not_mem {s : Bytes} (h : ('<' : Byte) ∉ s) : IsText s := by
  induction s with
  | nil => trivial
  | cons c s ih =>
    rw [List.mem_cons, not_or] at h
    exact ⟨fun hopen => h.1 hopen.1.symm, ih h.2⟩

/-- Characters that open no markup here join the text. -/
theorem htmlLoop_text {t rest : Bytes} (h : IsText t) (hrest : ¬ OpensMarkup rest) (u : Bytes) :
    htmlLoop (.data u) (t ++ rest) = htmlLoop (.data (u ++ t)) rest := by
  induction t generalizing u with
  | nil => rw [List.nil_append, List.append_nil]
  | cons c t ih =>
    have hstay : ¬ (c = '<' ∧ OpensMarkup (t ++ rest)) := by
      cases t with
      | nil => exact fun hopen => hrest hopen.2
      | cons d t => exact h.1
    rw [List.cons_append, htmlLoop, if_neg hstay, ih h.2, List.append_assoc, List.singleton_append]

/-- Markup goes on to the next `>`. -/
theorem htmlLoop_markup {w : Bytes} (hw : ∀ c ∈ w, c ≠ '>') (text opened rest : Bytes) :
    htmlLoop (.markup text opened) (w ++ ('>' : Byte) :: rest) =
      (text, opened ++ w ++ [('>' : Byte)]) :: htmlLoop (.data []) rest := by
  induction w generalizing opened with
  | nil => rw [List.nil_append, htmlLoop, if_pos rfl, List.append_nil]
  | cons c w ih =>
    obtain ⟨hc, hw⟩ := List.forall_mem_cons.mp hw
    rw [List.cons_append, htmlLoop, if_neg hc, ih hw, List.append_assoc opened,
      List.singleton_append]

theorem IsTag.exists_eq {tag : Bytes} (h : IsTag tag) :
    ∃ w, tag = ('<' : Byte) :: (w ++ [('>' : Byte)]) ∧ OpensMarkup (w ++ [('>' : Byte)]) ∧
      ∀ c ∈ w, c ≠ '<' ∧ c ≠ '>' := by
  obtain ⟨hhead, hopens, hlast, hw⟩ := h
  obtain ⟨s, rfl⟩ : ∃ s, tag = ('<' : Byte) :: s := List.head?_eq_some_iff.mp hhead
  have hne : s ≠ [] := by
    rintro rfl
    exact hopens
  obtain ⟨w, rfl⟩ : ∃ w, s = w ++ [('>' : Byte)] := by
    rw [List.getLast?_cons_of_ne_nil hne] at hlast
    exact List.getLast?_eq_some_iff.mp hlast
  refine ⟨w, rfl, hopens, ?_⟩
  rwa [List.tail_cons, List.dropLast_concat] at hw

/-- A tag ends a text. -/
theorem htmlLoop_tag {tag : Bytes} (h : IsTag tag) (u rest : Bytes) :
    htmlLoop (.data u) (tag ++ rest) = (u, tag) :: htmlLoop (.data []) rest := by
  obtain ⟨w, rfl, hopens, hw⟩ := h.exists_eq
  have hopen : OpensMarkup (w ++ ('>' : Byte) :: rest) := by
    cases w with
    | nil => exact hopens
    | cons c w => exact hopens
  rw [List.cons_append, List.append_assoc, List.singleton_append, htmlLoop, if_pos ⟨rfl, hopen⟩,
    htmlLoop_markup fun c hc => (hw c hc).2, List.append_assoc, List.singleton_append]

/-- A tag begins with a `<`, so that a `<` before it opens nothing. -/
theorem IsTag.not_opensMarkup {tag : Bytes} (h : IsTag tag) (rest : Bytes) :
    ¬ OpensMarkup (tag ++ rest) := by
  obtain ⟨w, rfl, -⟩ := h.exists_eq
  exact (by decide : ¬ IsOpener '<')

/-- **What was put together from texts and tags is read back.** -/
theorem htmlPieces_render {pieces : List HtmlPiece} (htags : ∀ p ∈ pieces, IsTag p.2)
    (htexts : ∀ p ∈ pieces, IsText p.1) : htmlPieces (render pieces) = pieces := by
  induction pieces with
  | nil => rfl
  | cons p pieces ih =>
    obtain ⟨htag, htags⟩ := List.forall_mem_cons.mp htags
    obtain ⟨htext, htexts⟩ := List.forall_mem_cons.mp htexts
    rw [htmlPieces, render, List.flatMap_cons, List.append_assoc,
      htmlLoop_text htext (htag.not_opensMarkup _), htmlLoop_tag htag]
    exact congrArg _ (ih htags htexts)

/-! ## What a text that opens markup does -/

/-- Markup has no `<` but the one that it begins with. -/
def IsPlainMarkup (m : Bytes) : Prop := ('<' : Byte) ∉ m.tail

theorem IsTag.isPlainMarkup {tag : Bytes} (h : IsTag tag) : IsPlainMarkup tag := by
  obtain ⟨w, rfl, -, hw⟩ := h.exists_eq
  intro hmem
  rcases List.mem_append.mp hmem with hmem | hmem
  · exact (hw _ hmem).1 rfl
  · exact absurd (List.mem_singleton.mp hmem) (by decide)

/-- Markup that is open keeps what it has, and takes up what comes before the next
`>`. -/
theorem htmlLoop_markup_cons {w : Bytes} (hw : ∀ c ∈ w, c ≠ '>') (rest text opened : Bytes) :
    ∃ more pieces, htmlLoop (.markup text opened) (w ++ rest) =
      (text, opened ++ w ++ more) :: pieces := by
  induction w generalizing opened with
  | nil =>
    induction rest generalizing opened with
    | nil => exact ⟨[], [], by simp [htmlLoop]⟩
    | cons c rest ih =>
      by_cases hc : c = '>'
      · exact ⟨[c], htmlLoop (.data []) rest, by simp [htmlLoop, hc]⟩
      · obtain ⟨more, pieces, heq⟩ := ih (opened ++ [c])
        refine ⟨c :: more, pieces, ?_⟩
        rw [List.nil_append, htmlLoop, if_neg hc]
        simpa using heq
  | cons c w ih =>
    obtain ⟨hc, hw⟩ := List.forall_mem_cons.mp hw
    obtain ⟨more, pieces, heq⟩ := ih hw (opened ++ [c])
    refine ⟨more, pieces, ?_⟩
    rw [List.cons_append, htmlLoop, if_neg hc, heq]
    simp

/-- Markup that is still open where a tag begins has a `<` in it. -/
theorem IsTag.swallowed {tag : Bytes} (htag : IsTag tag) {t : Bytes} (ht : ∀ d ∈ t, d ≠ '>')
    (u : Bytes) (c : Byte) (rest : Bytes) :
    ∃ p ∈ htmlLoop (.markup u [c]) (t ++ (tag ++ rest)), ¬ IsPlainMarkup p.2 := by
  obtain ⟨v, rfl, -⟩ := htag.exists_eq
  have hw : ∀ d ∈ t ++ [('<' : Byte)], d ≠ '>' := by
    intro d hd
    rcases List.mem_append.mp hd with hd | hd
    · exact ht d hd
    · rw [List.mem_singleton.mp hd]
      decide
  obtain ⟨more, pieces, heq⟩ := htmlLoop_markup_cons hw (v ++ [('>' : Byte)] ++ rest) u [c]
  have hsplit : t ++ (('<' : Byte) :: (v ++ [('>' : Byte)]) ++ rest) =
      t ++ [('<' : Byte)] ++ (v ++ [('>' : Byte)] ++ rest) := by simp
  rw [hsplit, heq]
  exact ⟨_, List.mem_cons_self, fun hplain => hplain (by simp)⟩

/-- A text before a tag adds pieces of its own if it opens markup, provided that no
markup swallows a `<`. -/
theorem htmlLoop_text_pieces {tag : Bytes} (htag : IsTag tag) (rest : Bytes) (t u : Bytes)
    (hplain : ∀ p ∈ htmlLoop (.data u) (t ++ (tag ++ rest)), IsPlainMarkup p.2) :
    ∃ own u', htmlLoop (.data u) (t ++ (tag ++ rest)) = own ++ htmlLoop (.data u') (tag ++ rest) ∧
      (own = [] → IsText t) := by
  induction hn : t.length using Nat.strong_induction_on generalizing t u with
  | _ n ih =>
    subst hn
    cases t with
    | nil => exact ⟨[], u, rfl, fun _ => trivial⟩
    | cons c t =>
      by_cases hopen : c = '<' ∧ OpensMarkup (t ++ (tag ++ rest))
      · rw [List.cons_append, htmlLoop, if_pos hopen] at hplain ⊢
        rcases exists_cut (fun c => c = ('>' : Byte)) t with hall | ⟨w, d, t', rfl, hw, rfl⟩
        · -- the markup runs into the tag
          obtain ⟨p, hp, hswallows⟩ := htag.swallowed hall u c rest
          exact absurd (hplain p hp) hswallows
        · rw [List.append_assoc, List.cons_append, htmlLoop_markup hw] at hplain ⊢
          obtain ⟨own, u', heq, -⟩ := ih t'.length (by simp; omega) t' []
            (fun p hp => hplain p (List.mem_cons_of_mem _ hp)) rfl
          exact ⟨(u, [c] ++ w ++ [('>' : Byte)]) :: own, u', congrArg (_ :: ·) heq,
            fun hnil => (nomatch hnil)⟩
      · rw [List.cons_append, htmlLoop, if_neg hopen] at hplain ⊢
        obtain ⟨own, u', heq, htext⟩ := ih t.length (Nat.lt_succ_self _) t _ hplain rfl
        refine ⟨own, u', heq, fun hnil => ⟨fun hc => hopen ⟨hc.1, ?_⟩, htext hnil⟩⟩
        cases t with
        | nil => exact absurd hc.2 id
        | cons d t => exact hc.2

/-- Texts that open markup add to it, unless they swallow a tag. -/
theorem length_le_htmlLoop_render {pieces : List HtmlPiece} (htags : ∀ p ∈ pieces, IsTag p.2)
    (u : Bytes) (hplain : ∀ p ∈ htmlLoop (.data u) (render pieces), IsPlainMarkup p.2) :
    pieces.length ≤ (htmlLoop (.data u) (render pieces)).length ∧
      ((htmlLoop (.data u) (render pieces)).length ≤ pieces.length →
        ∀ p ∈ pieces, IsText p.1) := by
  induction pieces generalizing u with
  | nil => exact ⟨Nat.zero_le _, fun _ p hp => (nomatch hp)⟩
  | cons p pieces ih =>
    obtain ⟨htag, htags⟩ := List.forall_mem_cons.mp htags
    have hrender : render (p :: pieces) = p.1 ++ (p.2 ++ render pieces) := by
      rw [render, List.flatMap_cons, List.append_assoc]
      rfl
    rw [hrender] at hplain ⊢
    obtain ⟨own, u', heq, htext⟩ := htmlLoop_text_pieces htag _ _ _ hplain
    rw [heq, htmlLoop_tag htag] at hplain ⊢
    obtain ⟨hle, hrest⟩ := ih htags [] fun p hp => hplain p (by simp [hp])
    rw [List.length_append, List.length_cons, List.length_cons]
    refine ⟨by omega, fun hlen => List.forall_mem_cons.mpr ⟨htext ?_, hrest (by omega)⟩⟩
    exact List.length_eq_zero_iff.mp (by omega)

/-- **The markup of a page is that of its tags exactly if no text opens markup.** -/
theorem markups_render_iff {pieces : List HtmlPiece} (htags : ∀ p ∈ pieces, IsTag p.2) :
    markups (render pieces) = pieces.map Prod.snd ↔ ∀ p ∈ pieces, IsText p.1 := by
  constructor
  · intro h
    have hplain : ∀ p ∈ htmlPieces (render pieces), IsPlainMarkup p.2 := by
      intro p hp
      have hmem : p.2 ∈ pieces.map Prod.snd := h ▸ List.mem_map_of_mem hp
      obtain ⟨q, hq, hsame⟩ := List.mem_map.mp hmem
      exact hsame ▸ (htags q hq).isPlainMarkup
    have hlen := congrArg List.length h
    rw [markups, List.length_map, List.length_map] at hlen
    exact (length_le_htmlLoop_render htags [] hplain).2 hlen.le
  · intro h
    rw [markups, htmlPieces_render htags h]

/-! ## Tables -/

/-- How a text is read that opens no markup: what its character references stand for
is up to the reader, and so are the bytes that are no ASCII characters. -/
structure TextReader where
  text : Bytes → Bytes
  plain : ∀ s : Bytes, (∀ c ∈ s, 0 < c ∧ c < 128 ∧ c ≠ '&' ∧ c ≠ 13) → text s = s

/-- The pieces up to the first that ends with the markup. -/
def upTo (stop : Bytes) : List HtmlPiece → List HtmlPiece
  | [] => []
  | p :: pieces => if p.2 = stop then [p] else p :: upTo stop pieces

/-- What stands between each `start` and the `stop` that follows it. -/
def between (start stop : Bytes) : List HtmlPiece → List (List HtmlPiece)
  | [] => []
  | p :: pieces =>
    if p.2 = start then upTo stop pieces :: between start stop pieces
    else between start stop pieces

namespace TextReader

variable (reader : TextReader)

/-- The cells of a row. -/
def cells (row : List HtmlPiece) : List Bytes :=
  (between "<td>" "</td>" row).map fun cell => reader.text (cell.flatMap Prod.fst)

/-- The rows of a table that have cells. -/
def rows (table : List HtmlPiece) : List (List Bytes) :=
  ((between "<tr>" "</tr>" table).map reader.cells).filter (· ≠ [])

/-- The tables of a page. -/
def tables (page : Bytes) : List (List (List Bytes)) :=
  (between "<table>" "</table>" (htmlPieces page)).map reader.rows

end TextReader

theorem between_append {start stop : Bytes} {u : List HtmlPiece} (h : ∀ p ∈ u, p.2 ≠ start)
    (pieces : List HtmlPiece) : between start stop (u ++ pieces) = between start stop pieces := by
  induction u with
  | nil => rfl
  | cons p u ih =>
    obtain ⟨hp, hu⟩ := List.forall_mem_cons.mp h
    rw [List.cons_append, between, if_neg hp, ih hu]

theorem upTo_append {stop : Bytes} {u : List HtmlPiece} (h : ∀ p ∈ u, p.2 ≠ stop) (t : Bytes)
    (pieces : List HtmlPiece) : upTo stop (u ++ (t, stop) :: pieces) = u ++ [(t, stop)] := by
  induction u with
  | nil => rw [List.nil_append, upTo, if_pos rfl, List.nil_append]
  | cons p u ih =>
    obtain ⟨hp, hu⟩ := List.forall_mem_cons.mp h
    rw [List.cons_append, upTo, if_neg hp, ih hu, List.cons_append]

/-- What stands between a `start` and the next `stop`. -/
theorem between_segment {start stop : Bytes} (hne : start ≠ stop) {u : List HtmlPiece}
    (h : ∀ p ∈ u, p.2 ≠ start ∧ p.2 ≠ stop) (t t' : Bytes) (pieces : List HtmlPiece) :
    between start stop ((t, start) :: (u ++ (t', stop) :: pieces)) =
      (u ++ [(t', stop)]) :: between start stop pieces := by
  rw [between, if_pos rfl, upTo_append fun p hp => (h p hp).2,
    between_append fun p hp => (h p hp).1, between, if_neg hne.symm]

end Lib
