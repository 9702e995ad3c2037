import GittyUp.Lib.Numeral

/-!
# Regular expressions with ECMAScript matching (`std::regex`)

A backtracking matcher returns the possible ends of a match in the order in
which it tries them; the first one is the match. `Regex.Accepts` is the meaning
of a regex as a language of words in a context. The matcher finds an end exactly
when the language has a word there (`run_sound`, `run_complete`), and what a
group captured is a word of that group's regex (`captured_of_mem_run`).

Back references, alternation and look-ahead are left out, and `^` and `$` match
only at the ends of the text.
-/

namespace Lib

universe u

variable {α : Type u}

/-- A regex over the characters `α`. -/
inductive Regex (α : Type u) where
  | empty
  | char (p : α → Bool)
  | seq (r s : Regex α)
  | star (greedy : Bool) (r : Regex α)
  | group (n : Nat) (r : Regex α)
  | bol
  | eol

/-- A position in a text, with the groups captured so far, latest first. -/
structure Cursor (α : Type u) where
  seen : List α
  rest : List α
  groups : List (Nat × List α)

/-- `k'` is `k` moved forward over the word `w`. -/
structure Cursor.Over (k : Cursor α) (w : List α) (k' : Cursor α) : Prop where
  seen : k'.seen = k.seen ++ w
  rest : k.rest = w ++ k'.rest

theorem Cursor.Over.refl (k : Cursor α) : k.Over [] k :=
  ⟨(List.append_nil _).symm, rfl⟩

theorem Cursor.Over.trans {k k₁ k' : Cursor α} {u v : List α} (h : k.Over u k₁)
    (h' : k₁.Over v k') : k.Over (u ++ v) k' :=
  ⟨by rw [h'.seen, h.seen, List.append_assoc], by rw [h.rest, h'.rest, List.append_assoc]⟩

/-- Moving forward stays in the same text. -/
theorem Cursor.Over.text {k k' : Cursor α} {w : List α} (h : k.Over w k') :
    k'.seen ++ k'.rest = k.seen ++ k.rest := by
  rw [h.seen, h.rest, List.append_assoc]

namespace Regex

/-- `r+`, or `r+?` when not greedy. -/
def plus (greedy : Bool) (r : Regex α) : Regex α := .seq r (.star greedy r)

/-- `r{n}`. -/
def times : Nat → Regex α → Regex α
  | 0, _ => .empty
  | n + 1, r => .seq r (times n r)

/-- The characters `s`, one after the other. -/
def literal [DecidableEq α] : List α → Regex α
  | [] => .empty
  | c :: s => .seq (.char fun d => d = c) (literal s)

/-- Regexes one after the other. -/
def concat : List (Regex α) → Regex α
  | [] => .empty
  | r :: rs => .seq r (concat rs)

/-! ## The matcher -/

/-- Repeat `step`, at most `fuel` times; an iteration has to consume something.
Greedily, more iterations are tried before fewer. -/
def iterate (step : Cursor α → List (Cursor α)) (greedy : Bool) :
    Nat → Cursor α → List (Cursor α)
  | 0, k => [k]
  | fuel + 1, k =>
    let more := ((step k).filter fun k' => k'.rest.length < k.rest.length).flatMap
      (iterate step greedy fuel)
    if greedy then more ++ [k] else k :: more

/-- The ends of the matches of `r` from a cursor, in the order of preference. -/
def run : Regex α → Cursor α → List (Cursor α)
  | .empty, k => [k]
  | .char p, k =>
    match k.rest with
    | [] => []
    | c :: rest => if p c then [⟨k.seen ++ [c], rest, k.groups⟩] else []
  | .seq r s, k => (r.run k).flatMap s.run
  | .star greedy r, k => iterate r.run greedy k.rest.length k
  | .group n r, k =>
    (r.run k).map fun k' =>
      { k' with groups := (n, k'.seen.drop k.seen.length) :: k'.groups }
  | .bol, k => if k.seen.isEmpty then [k] else []
  | .eol, k => if k.rest.isEmpty then [k] else []

theorem mem_iterate {step : Cursor α → List (Cursor α)} {greedy : Bool} {fuel : Nat}
    {k k' : Cursor α} :
    k' ∈ iterate step greedy (fuel + 1) k ↔
      k' = k ∨ ∃ k₁ ∈ step k, k₁.rest.length < k.rest.length ∧
        k' ∈ iterate step greedy fuel k₁ := by
  have hmore : k' ∈ ((step k).filter fun k' => k'.rest.length < k.rest.length).flatMap
        (iterate step greedy fuel) ↔
      ∃ k₁ ∈ step k, k₁.rest.length < k.rest.length ∧ k' ∈ iterate step greedy fuel k₁ := by
    simp only [List.mem_flatMap, List.mem_filter, decide_eq_true_eq, and_assoc]
  rw [iterate]
  split_ifs
  · rw [List.mem_append, List.mem_singleton, hmore, or_comm]
  · rw [List.mem_cons, hmore]

/-- The induction over the iterations of a star. -/
theorem iterate_induction {step : Cursor α → List (Cursor α)} {greedy : Bool}
    {P : Cursor α → Cursor α → Prop} (refl : ∀ k, P k k)
    (head : ∀ k k₁ k', k₁ ∈ step k → k₁.rest.length < k.rest.length → P k₁ k' → P k k') :
    ∀ fuel k k', k' ∈ iterate step greedy fuel k → P k k' := by
  intro fuel
  induction fuel with
  | zero =>
    intro k k' h
    rw [List.mem_singleton.mp h]
    exact refl k
  | succ fuel ih =>
    intro k k' h
    rcases mem_iterate.mp h with rfl | ⟨k₁, hstep, hlt, hk'⟩
    · exact refl _
    · exact head k k₁ k' hstep hlt (ih k₁ k' hk')

/-! ## The language -/

/-- `w` is a chain of non-empty words of `R`, each in its context. -/
inductive Chain (R : List α → List α → List α → Prop) : List α → List α → List α → Prop
  | nil {pre post : List α} : Chain R pre [] post
  | cons {pre u v post : List α} : u ≠ [] → R pre u (v ++ post) → Chain R (pre ++ u) v post →
      Chain R pre (u ++ v) post

/-- The regex matches the word `w` between `pre` and `post`. -/
def Accepts : Regex α → List α → List α → List α → Prop
  | .empty, _, w, _ => w = []
  | .char p, _, w, _ => ∃ c, w = [c] ∧ p c = true
  | .seq r s, pre, w, post =>
    ∃ u v, w = u ++ v ∧ r.Accepts pre u (v ++ post) ∧ s.Accepts (pre ++ u) v post
  | .star _ r, pre, w, post => Chain r.Accepts pre w post
  | .group _ r, pre, w, post => r.Accepts pre w post
  | .bol, pre, w, _ => pre = [] ∧ w = []
  | .eol, _, w, post => w = [] ∧ post = []

/-- The groups of a regex. -/
def groupsOf : Regex α → List (Nat × Regex α)
  | .empty | .char _ | .bol | .eol => []
  | .seq r s => r.groupsOf ++ s.groupsOf
  | .star _ r => r.groupsOf
  | .group n r => (n, r) :: r.groupsOf

/-- **Soundness**: an end that the matcher finds closes a word of the language. -/
theorem run_sound {r : Regex α} {k k' : Cursor α} (h : k' ∈ r.run k) :
    ∃ w, k.Over w k' ∧ r.Accepts k.seen w k'.rest := by
  induction r generalizing k k' with
  | empty =>
    obtain rfl := List.mem_singleton.mp h
    exact ⟨[], .refl _, rfl⟩
  | char p =>
    rw [run] at h
    split at h
    · contradiction
    · next c rest hrest =>
      split_ifs at h with hp
      · obtain rfl := List.mem_singleton.mp h
        exact ⟨[c], ⟨rfl, hrest⟩, c, rfl, hp⟩
      · contradiction
  | seq r s ihr ihs =>
    obtain ⟨k₁, hr, hs⟩ := List.mem_flatMap.mp h
    obtain ⟨u, hu, hru⟩ := ihr hr
    obtain ⟨v, hv, hsv⟩ := ihs hs
    rw [hv.rest] at hru
    rw [hu.seen] at hsv
    exact ⟨u ++ v, hu.trans hv, u, v, rfl, hru, hsv⟩
  | star greedy r ih =>
    refine iterate_induction (P := fun k k' => ∃ w, k.Over w k' ∧ Chain r.Accepts k.seen w k'.rest)
      (fun k => ⟨[], .refl _, .nil⟩) ?_ _ k k' h
    rintro k k₁ k' hk₁ hlt ⟨v, hv, hchain⟩
    obtain ⟨u, hu, hru⟩ := ih hk₁
    rw [hv.rest] at hru
    rw [hu.seen] at hchain
    refine ⟨u ++ v, hu.trans hv, .cons ?_ hru hchain⟩
    rintro rfl
    simp [hu.rest] at hlt
  | group n r ih =>
    obtain ⟨k₁, hk₁, rfl⟩ := List.mem_map.mp h
    obtain ⟨w, hw, hacc⟩ := ih hk₁
    exact ⟨w, ⟨hw.seen, hw.rest⟩, hacc⟩
  | bol =>
    rw [run] at h
    split_ifs at h with hseen
    · obtain rfl := List.mem_singleton.mp h
      exact ⟨[], .refl _, List.isEmpty_iff.mp hseen, rfl⟩
    · contradiction
  | eol =>
    rw [run] at h
    split_ifs at h with hrest
    · obtain rfl := List.mem_singleton.mp h
      exact ⟨[], .refl _, rfl, List.isEmpty_iff.mp hrest⟩
    · contradiction

theorem iterate_complete {step : Cursor α → List (Cursor α)} {greedy : Bool}
    {R : List α → List α → List α → Prop}
    (hstep : ∀ k w post, k.rest = w ++ post → R k.seen w post →
      ∃ k' ∈ step k, k.Over w k')
    {pre w post : List α} (h : Chain R pre w post) :
    ∀ fuel k, k.seen = pre → k.rest = w ++ post → k.rest.length ≤ fuel →
      ∃ k' ∈ iterate step greedy fuel k, k.Over w k' := by
  induction h with
  | nil =>
    intro fuel k _ _ _
    refine ⟨k, ?_, .refl k⟩
    cases fuel with
    | zero => exact List.mem_singleton_self k
    | succ fuel => exact mem_iterate.mpr (.inl rfl)
  | @cons pre u v post hu hR _ ih =>
    intro fuel k hseen hrest hfuel
    rw [List.append_assoc] at hrest
    obtain ⟨k₁, hk₁, hover⟩ := hstep k u (v ++ post) hrest (hseen ▸ hR)
    have hrest₁ : k₁.rest = v ++ post := by
      rw [hover.rest] at hrest
      exact List.append_cancel_left hrest
    have hlt : k₁.rest.length < k.rest.length := by
      rw [hover.rest, List.length_append]
      exact Nat.lt_add_of_pos_left (List.length_pos_iff.mpr hu)
    cases fuel with
    | zero => omega
    | succ fuel =>
      obtain ⟨k', hk', hover'⟩ := ih fuel k₁ (by rw [hover.seen, hseen]) hrest₁ (by omega)
      exact ⟨k', mem_iterate.mpr (.inr ⟨k₁, hk₁, hlt, hk'⟩), hover.trans hover'⟩

/-- **Completeness**: the matcher finds the end of every word of the language. -/
theorem run_complete {r : Regex α} {k : Cursor α} {w post : List α} (hrest : k.rest = w ++ post)
    (h : r.Accepts k.seen w post) : ∃ k' ∈ r.run k, k.Over w k' := by
  induction r generalizing k w post with
  | empty =>
    obtain rfl := h
    exact ⟨k, List.mem_singleton_self k, .refl k⟩
  | char p =>
    obtain ⟨c, rfl, hp⟩ := h
    rw [run]
    rw [List.singleton_append] at hrest
    simp only [hrest, if_pos hp]
    exact ⟨_, List.mem_singleton_self _, rfl, hrest⟩
  | seq r s ihr ihs =>
    obtain ⟨u, v, rfl, hr, hs⟩ := h
    rw [List.append_assoc] at hrest
    obtain ⟨k₁, hk₁, hover⟩ := ihr hrest hr
    have hrest₁ : k₁.rest = v ++ post := by
      rw [hover.rest] at hrest
      exact List.append_cancel_left hrest
    obtain ⟨k', hk', hover'⟩ := ihs hrest₁ (hover.seen ▸ hs)
    exact ⟨k', List.mem_flatMap.mpr ⟨k₁, hk₁, hk'⟩, hover.trans hover'⟩
  | star greedy r ih =>
    exact iterate_complete (fun k w post hrest h => ih hrest h) h _ k rfl hrest (Nat.le_refl _)
  | group n r ih =>
    obtain ⟨k₁, hk₁, hover⟩ := ih hrest h
    exact ⟨_, List.mem_map.mpr ⟨k₁, hk₁, rfl⟩, hover.seen, hover.rest⟩
  | bol =>
    obtain ⟨hseen, rfl⟩ := h
    rw [run, if_pos (List.isEmpty_iff.mpr hseen)]
    exact ⟨k, List.mem_singleton_self k, .refl k⟩
  | eol =>
    obtain ⟨rfl, rfl⟩ := h
    rw [run, if_pos (List.isEmpty_iff.mpr hrest)]
    exact ⟨k, List.mem_singleton_self k, .refl k⟩

/-- The word `g.2` of the text was captured by the group `g.1` of the regex. -/
def Captured (r : Regex α) (text : List α) (g : Nat × List α) : Prop :=
  ∃ s pre post, (g.1, s) ∈ r.groupsOf ∧ s.Accepts pre g.2 post ∧ text = pre ++ g.2 ++ post

/-- What a match adds to the groups was captured from the text. -/
theorem captured_of_mem_run {r : Regex α} {k k' : Cursor α} (h : k' ∈ r.run k) :
    ∀ g ∈ k'.groups, g ∈ k.groups ∨ r.Captured (k.seen ++ k.rest) g := by
  induction r generalizing k k' with
  | empty =>
    obtain rfl := List.mem_singleton.mp h
    exact fun g hg => .inl hg
  | char p =>
    rw [run] at h
    split at h
    · contradiction
    · split_ifs at h
      · obtain rfl := List.mem_singleton.mp h
        exact fun g hg => .inl hg
      · contradiction
  | seq r s ihr ihs =>
    obtain ⟨k₁, hr, hs⟩ := List.mem_flatMap.mp h
    obtain ⟨_, hover, -⟩ := run_sound hr
    intro g hg
    rcases ihs hs g hg with hg | ⟨q, pre, post, hq, hrest⟩
    · rcases ihr hr g hg with hg | ⟨q, pre, post, hq, hrest⟩
      · exact .inl hg
      · exact .inr ⟨q, pre, post, List.mem_append_left _ hq, hrest⟩
    · rw [hover.text] at hrest
      exact .inr ⟨q, pre, post, List.mem_append_right _ hq, hrest⟩
  | star greedy r ih =>
    refine iterate_induction (P := fun k k' => ∀ g ∈ k'.groups,
        g ∈ k.groups ∨ r.Captured (k.seen ++ k.rest) g) (fun k g hg => .inl hg) ?_ _ k k' h
    intro k k₁ k' hk₁ _ hrec g hg
    obtain ⟨_, hover, -⟩ := run_sound hk₁
    rcases hrec g hg with hg | hg
    · exact ih hk₁ g hg
    · exact .inr (hover.text ▸ hg)
  | group n r ih =>
    obtain ⟨k₁, hk₁, rfl⟩ := List.mem_map.mp h
    obtain ⟨w, hover, hacc⟩ := run_sound hk₁
    intro g hg
    rcases List.mem_cons.mp hg with rfl | hg
    · refine .inr ⟨r, k.seen, k₁.rest, List.mem_cons_self, ?_⟩
      rw [hover.seen, List.drop_left, hover.rest, List.append_assoc]
      exact ⟨hacc, rfl⟩
    · rcases ih hk₁ g hg with hg | ⟨q, pre, post, hq, hrest⟩
      · exact .inl hg
      · exact .inr ⟨q, pre, post, List.mem_cons_of_mem _ hq, hrest⟩
  | bol =>
    rw [run] at h
    split_ifs at h
    · obtain rfl := List.mem_singleton.mp h
      exact fun g hg => .inl hg
    · contradiction
  | eol =>
    rw [run] at h
    split_ifs at h
    · obtain rfl := List.mem_singleton.mp h
      exact fun g hg => .inl hg
    · contradiction

end Regex

end Lib
