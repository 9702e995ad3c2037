import GittyUp.Lib.RegexSearch

/-!
# Which match a search prefers

A greedy repetition tries the longest word first, a lazy one the shortest, and
the match that is found is the first that lets the rest of the regex match. The
rules `first_seq` and `first_group` say so for one factor of a regex: its word is
the one after which the rest matches, when no word that is tried before it is.
`matchesAt_cons` and `matchesAt_skip` then walk a `std::sregex_iterator` along
its text, match by match.
-/

namespace Lib

namespace Regex

universe u v

variable {α : Type u} {r s : Regex α} {greedy : Bool}

/-! ## The order in which ends are tried -/

/-- The end that the matcher prefers. -/
def first (r : Regex α) (k : Cursor α) : Option (Cursor α) := (r.run k).head?

/-- A word of length `m` is tried before one of length `n`. -/
def Before (greedy : Bool) (m n : Nat) : Prop := if greedy then n < m else m < n

/-- The words of `r` are tried by length. -/
def Ordered (greedy : Bool) (r : Regex α) : Prop :=
  ∀ k, (r.run k).Pairwise fun k₁ k₂ => Before greedy k₁.seen.length k₂.seen.length

/-- There is at most one way to match `r` at a position. -/
def Deterministic (r : Regex α) : Prop := ∀ k, (r.run k).length ≤ 1

/-- A match adds captures of the regex's own groups. -/
theorem groups_of_mem_run {k k' : Cursor α} (h : k' ∈ r.run k) :
    ∃ gs, k'.groups = gs ++ k.groups ∧ ∀ g ∈ gs, g.1 ∈ r.groupsOf.map Prod.fst := by
  have none_added : ∀ {k k' : Cursor α} {ns : List Nat}, k'.groups = k.groups →
      ∃ gs, k'.groups = gs ++ k.groups ∧ ∀ g ∈ gs, g.1 ∈ ns :=
    fun hk => ⟨[], hk, fun g hg => absurd hg List.not_mem_nil⟩
  induction r generalizing k k' with
  | empty =>
    obtain rfl := List.mem_singleton.mp h
    exact none_added rfl
  | char p =>
    rw [run] at h
    split at h
    · contradiction
    · split_ifs at h
      · obtain rfl := List.mem_singleton.mp h
        exact none_added rfl
      · contradiction
  | seq r s ihr ihs =>
    obtain ⟨k₁, hk₁, hk'⟩ := List.mem_flatMap.mp h
    obtain ⟨gs₁, hgs₁, hr⟩ := ihr hk₁
    obtain ⟨gs₂, hgs₂, hs⟩ := ihs hk'
    refine ⟨gs₂ ++ gs₁, by rw [hgs₂, hgs₁, List.append_assoc], ?_⟩
    rw [groupsOf, List.map_append]
    refine List.forall_mem_append.mpr ⟨fun g hg => ?_, fun g hg => ?_⟩
    · exact List.mem_append_right _ (hs g hg)
    · exact List.mem_append_left _ (hr g hg)
  | star g r ih =>
    refine iterate_induction (P := fun k k' => ∃ gs, k'.groups = gs ++ k.groups ∧
      ∀ g ∈ gs, g.1 ∈ r.groupsOf.map Prod.fst) (fun _ => none_added rfl) ?_ _ k k' h
    rintro k k₁ k' hk₁ _ ⟨gs₂, hgs₂, hs⟩
    obtain ⟨gs₁, hgs₁, hr⟩ := ih hk₁
    exact ⟨gs₂ ++ gs₁, by rw [hgs₂, hgs₁, List.append_assoc],
      List.forall_mem_append.mpr ⟨hs, hr⟩⟩
  | group n r ih =>
    obtain ⟨k₁, hk₁, rfl⟩ := List.mem_map.mp h
    obtain ⟨gs, hgs, hr⟩ := ih hk₁
    refine ⟨(n, k₁.seen.drop k.seen.length) :: gs, by rw [hgs, List.cons_append], ?_⟩
    exact List.forall_mem_cons.mpr ⟨List.mem_cons_self,
      fun g hg => List.mem_cons_of_mem _ (hr g hg)⟩
  | bol =>
    rw [run] at h
    split_ifs at h
    · obtain rfl := List.mem_singleton.mp h
      exact none_added rfl
    · contradiction
  | eol =>
    rw [run] at h
    split_ifs at h
    · obtain rfl := List.mem_singleton.mp h
      exact none_added rfl
    · contradiction

/-- A regex without groups captures nothing. -/
theorem groups_eq_of_mem_run (hr : r.groupsOf = []) {k k' : Cursor α} (h : k' ∈ r.run k) :
    k'.groups = k.groups := by
  obtain ⟨gs, hgs, hmem⟩ := groups_of_mem_run h
  rw [hr] at hmem
  rw [hgs, List.eq_nil_iff_forall_not_mem.mpr fun g hg => List.not_mem_nil (hmem g hg),
    List.nil_append]

/-- The end of a word of a regex without groups is one of the ends tried. -/
theorem mem_run_of_accepts (hr : r.groupsOf = []) {k : Cursor α} {w rest : List α}
    (hrest : k.rest = w ++ rest) (h : r.Accepts k.seen w rest) :
    (⟨k.seen ++ w, rest, k.groups⟩ : Cursor α) ∈ r.run k := by
  obtain ⟨⟨seen, rest', groups⟩, hk', hover⟩ := run_complete hrest h
  obtain rfl : groups = k.groups := groups_eq_of_mem_run hr hk'
  obtain rfl : seen = k.seen ++ w := hover.seen
  obtain rfl : rest = rest' := List.append_cancel_left (hrest.symm.trans hover.rest)
  exact hk'

/-- The matcher fails exactly where no word of the regex begins. -/
theorem first_eq_none_iff {k : Cursor α} :
    r.first k = none ↔ ∀ w v, k.rest = w ++ v → ¬ r.Accepts k.seen w v := by
  rw [first, List.head?_eq_none_iff]
  constructor
  · intro h w v hrest hacc
    obtain ⟨k', hk', -⟩ := run_complete hrest hacc
    rw [h] at hk'
    exact List.not_mem_nil hk'
  · intro h
    refine List.eq_nil_iff_forall_not_mem.mpr fun k' hk' => ?_
    obtain ⟨w, hover, hacc⟩ := run_sound hk'
    exact h w _ hover.rest hacc

/-- Where a word of the regex begins, one is found; it leaves the captures of
other groups alone. -/
theorem exists_first_of_accepts {k : Cursor α} {w v : List α} (hrest : k.rest = w ++ v)
    (h : r.Accepts k.seen w v) :
    ∃ k' u, r.first k = some k' ∧ k.Over u k' ∧ r.Accepts k.seen u k'.rest ∧
      ∀ n, n ∉ r.groupsOf.map Prod.fst → k'.groups.lookup n = k.groups.lookup n := by
  cases hk : r.first k with
  | none => exact absurd h (first_eq_none_iff.mp hk w v hrest)
  | some k' =>
    have hmem := List.mem_of_head? hk
    obtain ⟨u, hover, hacc⟩ := run_sound hmem
    obtain ⟨gs, hgs, hown⟩ := groups_of_mem_run hmem
    refine ⟨k', u, rfl, hover, hacc, fun n hn => ?_⟩
    rw [hgs, List.lookup_append, List.lookup_eq_none_iff.mpr, Option.none_or]
    intro g hg
    refine bne_iff_ne.mpr ?_
    rintro rfl
    exact hn (hown g hg)

/-! ## Regexes with an order -/

theorem Deterministic.run_eq (hr : r.Deterministic) (k : Cursor α) :
    r.run k = [] ∨ ∃ k₁, r.run k = [k₁] := by
  have hk := hr k
  cases hrun : r.run k with
  | nil => exact .inl rfl
  | cons k₁ ks =>
    rw [hrun, List.length_cons] at hk
    obtain rfl : ks = [] := List.length_eq_zero_iff.mp (by omega)
    exact .inr ⟨k₁, rfl⟩

theorem deterministic_char (p : α → Bool) : (char p).Deterministic := by
  intro k
  rw [run]
  split
  · exact Nat.zero_le 1
  · split_ifs
    · exact Nat.le_refl 1
    · exact Nat.zero_le 1

theorem deterministic_bol : (bol : Regex α).Deterministic := by
  intro k
  rw [run]
  split_ifs <;> simp

theorem Deterministic.seq (hr : r.Deterministic) (hs : s.Deterministic) :
    (Regex.seq r s).Deterministic := by
  intro k
  rw [run]
  rcases hr.run_eq k with hrun | ⟨k₁, hrun⟩
  · rw [hrun]
    exact Nat.zero_le 1
  · rw [hrun, List.flatMap_singleton]
    exact hs k₁

theorem deterministic_literal [DecidableEq α] (w : List α) : (literal w).Deterministic := by
  induction w with
  | nil => exact fun k => Nat.le_refl 1
  | cons c w ih => exact (deterministic_char _).seq ih

/-- A repetition of a deterministic regex is tried by length. -/
theorem ordered_star (hr : r.Deterministic) : (star greedy r).Ordered greedy := by
  have hiter : ∀ fuel k, (iterate r.run greedy fuel k).Pairwise fun k₁ k₂ =>
      Before greedy k₁.seen.length k₂.seen.length := by
    -- further iterations only move on
    have hmoves : ∀ fuel k k', k' ∈ iterate r.run greedy fuel k →
        k.seen.length ≤ k'.seen.length := by
      refine iterate_induction (P := fun k k' => k.seen.length ≤ k'.seen.length)
        (fun _ => Nat.le_refl _) ?_
      intro k k₁ k' hk₁ _ hle
      obtain ⟨w, hover, -⟩ := run_sound hk₁
      rw [hover.seen, List.length_append] at hle
      omega
    intro fuel
    induction fuel with
    | zero => exact fun k => List.pairwise_singleton _ _
    | succ fuel ih =>
      intro k
      have hmore : ∀ k', k' ∈ ((r.run k).filter fun k' => k'.rest.length < k.rest.length).flatMap
          (iterate r.run greedy fuel) → k.seen.length < k'.seen.length := by
        intro k' hk'
        obtain ⟨k₁, hk₁, hk'⟩ := List.mem_flatMap.mp hk'
        obtain ⟨hk₁, hlt⟩ := List.mem_filter.mp hk₁
        obtain ⟨w, hover, -⟩ := run_sound hk₁
        have hle := hmoves fuel k₁ k' hk'
        have hlen := congrArg List.length hover.rest
        rw [List.length_append] at hlen
        rw [hover.seen, List.length_append] at hle
        have := of_decide_eq_true hlt
        omega
      have hpair : (((r.run k).filter fun k' => k'.rest.length < k.rest.length).flatMap
          (iterate r.run greedy fuel)).Pairwise fun k₁ k₂ =>
            Before greedy k₁.seen.length k₂.seen.length := by
        rcases hr.run_eq k with hrun | ⟨k₁, hrun⟩
        · rw [hrun]
          exact .nil
        · rw [hrun, List.filter_singleton]
          cases decide (k₁.rest.length < k.rest.length) with
          | true =>
            rw [cond_true, List.flatMap_singleton]
            exact ih k₁
          | false => exact .nil
      rw [iterate]
      cases greedy with
      | true =>
        refine List.pairwise_append.mpr ⟨hpair, List.pairwise_singleton _ _, ?_⟩
        intro k₁ hk₁ k₂ hk₂
        obtain rfl := List.mem_singleton.mp hk₂
        exact hmore k₁ hk₁
      | false => exact List.pairwise_cons.mpr ⟨hmore, hpair⟩
  exact fun k => hiter _ k

/-- What follows a deterministic regex keeps its order. -/
theorem ordered_seq (hr : r.Deterministic) (hs : s.Ordered greedy) :
    (seq r s).Ordered greedy := by
  intro k
  rw [run]
  rcases hr.run_eq k with hrun | ⟨k₁, hrun⟩
  · rw [hrun]
    exact .nil
  · rw [hrun, List.flatMap_singleton]
    exact hs k₁

/-- So does what ends a concatenation. -/
theorem ordered_concat_singleton (hr : r.Ordered greedy) : (concat [r]).Ordered greedy := by
  intro k
  have hrun : (concat [r]).run k = r.run k := List.flatMap_singleton' (r.run k)
  rw [hrun]
  exact hr k

/-- A repetition that happens at least once is tried by length. -/
theorem ordered_plus (hr : r.Deterministic) : (plus greedy r).Ordered greedy :=
  ordered_seq hr (ordered_star hr)

/-! ## Rules for the preferred end -/

/-- What follows a deterministic factor starts where the factor ends. -/
theorem first_seq_deterministic (hr : r.Deterministic) (hgroups : r.groupsOf = [])
    {seen text w rest : List α} {groups : List (Nat × List α)} (htext : text = w ++ rest)
    (hw : r.Accepts seen w rest) :
    (seq r s).first ⟨seen, text, groups⟩ = s.first ⟨seen ++ w, rest, groups⟩ := by
  have hmem := mem_run_of_accepts (k := ⟨seen, text, groups⟩) hgroups htext hw
  rw [first, run]
  rcases hr.run_eq ⟨seen, text, groups⟩ with hrun | ⟨k₁, hrun⟩
  · rw [hrun] at hmem
    contradiction
  · rw [hrun] at hmem
    rw [hrun, List.flatMap_singleton, ← List.mem_singleton.mp hmem]
    rfl

theorem first_literal [DecidableEq α] {seen text w rest : List α} {groups : List (Nat × List α)}
    (htext : text = w ++ rest) :
    (seq (literal w) s).first ⟨seen, text, groups⟩ = s.first ⟨seen ++ w, rest, groups⟩ := by
  refine first_seq_deterministic (deterministic_literal w) ?_ htext (accepts_literal.mpr rfl)
  clear htext
  induction w with
  | nil => rfl
  | cons c w ih => exact ih

theorem first_bol {text : List α} {groups : List (Nat × List α)} :
    (seq bol s).first ⟨[], text, groups⟩ = s.first ⟨[], text, groups⟩ :=
  first_seq_deterministic (w := []) deterministic_bol rfl (List.nil_append text).symm ⟨rfl, rfl⟩

/-- The end found is the first one tried from which `f` succeeds. -/
theorem findSome_of_ordered {β : Type u} (hr : r.Ordered greedy) {k k₁ : Cursor α}
    (h₁ : k₁ ∈ r.run k) {f : Cursor α → Option β} {b : β} (hf : f k₁ = some b)
    (hbefore : ∀ k₂ ∈ r.run k, Before greedy k₂.seen.length k₁.seen.length → f k₂ = none) :
    (r.run k).findSome? f = some b := by
  obtain ⟨l₁, l₂, hl⟩ := List.mem_iff_append.mp h₁
  refine List.findSome?_eq_some_iff.mpr ⟨l₁, k₁, l₂, hl, hf, fun k₂ hk₂ => ?_⟩
  refine hbefore k₂ (hl ▸ List.mem_append_left _ hk₂) ?_
  have hpair := hr k
  rw [hl] at hpair
  exact (List.pairwise_append.mp hpair).2.2 k₂ hk₂ k₁ List.mem_cons_self

/-- Among the ends of words, it is the end of the first word tried. -/
theorem findSome_of_word {β : Type u} (hr : r.Ordered greedy) (hgroups : r.groupsOf = [])
    {seen text w rest : List α} {groups : List (Nat × List α)} (htext : text = w ++ rest)
    (hw : r.Accepts seen w rest) {f : Cursor α → Option β} {b : β}
    (hf : f ⟨seen ++ w, rest, groups⟩ = some b)
    (hbefore : ∀ u v, text = u ++ v → r.Accepts seen u v → Before greedy u.length w.length →
      f ⟨seen ++ u, v, groups⟩ = none) :
    (r.run ⟨seen, text, groups⟩).findSome? f = some b := by
  refine findSome_of_ordered hr (mem_run_of_accepts hgroups htext hw) hf fun k₂ hk₂ hlen => ?_
  obtain ⟨u, hover, hu⟩ := run_sound hk₂
  obtain ⟨seen₂, v, groups₂⟩ := k₂
  obtain rfl : groups₂ = groups := groups_eq_of_mem_run hgroups hk₂
  obtain rfl : seen₂ = seen ++ u := hover.seen
  refine hbefore u v hover.rest hu ?_
  simp only [List.length_append] at hlen
  unfold Before at hlen ⊢
  split_ifs at hlen ⊢ <;> omega

/-- **A factor takes the first word after which the rest matches.** -/
theorem first_seq (hr : r.Ordered greedy) (hgroups : r.groupsOf = [])
    {seen text w rest : List α} {groups : List (Nat × List α)} {k' : Cursor α}
    (htext : text = w ++ rest) (hw : r.Accepts seen w rest)
    (hs : s.first ⟨seen ++ w, rest, groups⟩ = some k')
    (hbefore : ∀ u v, text = u ++ v → r.Accepts seen u v → Before greedy u.length w.length →
      ∀ x y, v = x ++ y → ¬ s.Accepts (seen ++ u) x y) :
    (seq r s).first ⟨seen, text, groups⟩ = some k' := by
  rw [first, run, List.head?_flatMap]
  exact findSome_of_word hr hgroups htext hw hs fun u v huv hu hlen =>
    first_eq_none_iff.mpr (hbefore u v huv hu hlen)

/-- **A group captures the word it takes.** -/
theorem first_group (hr : r.Ordered greedy) (hgroups : r.groupsOf = []) {n : Nat}
    {seen text w rest : List α} {groups : List (Nat × List α)} {k' : Cursor α}
    (htext : text = w ++ rest) (hw : r.Accepts seen w rest)
    (hs : s.first ⟨seen ++ w, rest, (n, w) :: groups⟩ = some k')
    (hbefore : ∀ u v, text = u ++ v → r.Accepts seen u v → Before greedy u.length w.length →
      ∀ x y, v = x ++ y → ¬ s.Accepts (seen ++ u) x y) :
    (seq (group n r) s).first ⟨seen, text, groups⟩ = some k' := by
  rw [first, run, List.head?_flatMap, run, List.findSome?_map]
  refine findSome_of_word hr hgroups htext hw ?_ fun u v huv hu hlen =>
    first_eq_none_iff.mpr (hbefore u v huv hu hlen)
  show s.first ⟨seen ++ w, rest, (n, (seen ++ w).drop seen.length) :: groups⟩ = _
  rw [List.drop_left]
  exact hs

section Run

variable {P : α → Prop} (hr : r.Ordered true) (hgroups : r.groupsOf = []) (hwithin : r.Within P)
  {seen text w rest : List α} {groups : List (Nat × List α)} {k' : Cursor α}
  (htext : text = w ++ rest) (hstop : ∀ c, rest.head? = some c → ¬ P c)
  (hw : r.Accepts seen w rest)

include hwithin htext hstop in
/-- A run of characters has no longer word. -/
theorem not_before_of_run {u v : List α} (huv : text = u ++ v) (hu : r.Accepts seen u v) :
    ¬ Before true u.length w.length :=
  Nat.not_lt.mpr (length_le_of_run (huv.symm.trans htext) (hwithin.of_accepts hu) hstop)

include hr hgroups hwithin htext hstop hw

/-- A greedy factor takes a run of characters up to where it cannot go on. -/
theorem first_seq_run (hs : s.first ⟨seen ++ w, rest, groups⟩ = some k') :
    (seq r s).first ⟨seen, text, groups⟩ = some k' :=
  first_seq hr hgroups htext hw hs fun _ _ huv hu hlen =>
    absurd hlen (not_before_of_run hwithin htext hstop huv hu)

/-- So does a greedy group. -/
theorem first_group_run {n : Nat} (hs : s.first ⟨seen ++ w, rest, (n, w) :: groups⟩ = some k') :
    (seq (group n r) s).first ⟨seen, text, groups⟩ = some k' :=
  first_group hr hgroups htext hw hs fun _ _ huv hu hlen =>
    absurd hlen (not_before_of_run hwithin htext hstop huv hu)

end Run

/-! ## Walking along a text -/

/-- Every word of the regex has a character. -/
def NonEmpty (r : Regex α) : Prop := ∀ pre w post, r.Accepts pre w post → w ≠ []

/-- The matches that an iterator visits from a position on. -/
def matchesAt (r : Regex α) (seen rest : List α) : List (Match α) :=
  r.matchesFrom rest.length seen rest

theorem findAll_eq (r : Regex α) (text : List α) : r.findAll text = r.matchesAt [] text := rfl

/-- The match that ends at a cursor. -/
def matchTo (seen : List α) (k : Cursor α) : Match α :=
  ⟨seen, k.seen.drop seen.length, k.rest, k.groups⟩

theorem str_matchTo (seen : List α) (k : Cursor α) (n : Nat) :
    (matchTo seen k).str (n + 1) = (k.groups.lookup (n + 1)).getD [] := by
  rw [Match.str, if_neg (Nat.succ_ne_zero n), matchTo]

/-- A search succeeds where a word begins. -/
theorem searchFrom_of_first {seen rest : List α} {k : Cursor α}
    (h : r.first ⟨seen, rest, []⟩ = some k) : r.searchFrom seen rest = some (matchTo seen k) := by
  unfold first at h
  cases rest with
  | nil =>
    rw [searchFrom, h]
    rfl
  | cons c rest =>
    rw [searchFrom, h]
    rfl

/-- A search passes over a part in which no word begins. -/
theorem searchFrom_skip {seen u rest : List α}
    (h : ∀ u₁ c u₂, u = u₁ ++ c :: u₂ → ∀ w v, c :: u₂ ++ rest = w ++ v →
      ¬ r.Accepts (seen ++ u₁) w v) :
    r.searchFrom seen (u ++ rest) = r.searchFrom (seen ++ u) rest := by
  induction u generalizing seen with
  | nil => rw [List.nil_append, List.append_nil]
  | cons c u ih =>
    have hhere : (r.run ⟨seen, c :: (u ++ rest), []⟩).head? = none := by
      refine first_eq_none_iff.mpr fun w v hwv => ?_
      simpa using h [] c u rfl w v hwv
    rw [List.cons_append, searchFrom, hhere]
    show r.searchFrom (seen ++ [c]) (u ++ rest) = _
    rw [ih, List.append_assoc, List.singleton_append]
    intro u₁ d u₂ hu w v hwv
    rw [List.append_assoc, List.singleton_append]
    exact h (c :: u₁) d u₂ (by rw [hu, List.cons_append]) w v hwv

/-- A search fails where no word begins any more. -/
theorem searchFrom_eq_none {seen rest : List α}
    (h : ∀ u w v, rest = u ++ w ++ v → ¬ r.Accepts (seen ++ u) w v) :
    r.searchFrom seen rest = none := by
  cases hm : r.searchFrom seen rest with
  | none => rfl
  | some m =>
    obtain ⟨hfinds, skipped, hskipped⟩ := finds_of_searchFrom hm
    have htext := hfinds.text_eq
    have hacc := hfinds.accepts
    rw [hskipped] at htext hacc
    simp only [List.append_assoc, List.append_cancel_left_eq] at htext
    exact absurd hacc (h skipped _ _ (by rw [htext, List.append_assoc]))

/-- Enough fuel is enough. -/
theorem matchesFrom_fuel (hr : r.NonEmpty) {fuel : Nat} {seen rest : List α}
    (h : rest.length ≤ fuel) : r.matchesFrom fuel seen rest = r.matchesAt seen rest := by
  have hfuel : ∀ n fuel fuel' seen rest, rest.length ≤ n → rest.length ≤ fuel →
      rest.length ≤ fuel' → r.matchesFrom fuel seen rest = r.matchesFrom fuel' seen rest := by
    -- what a match leaves is shorter, and in the empty text there is none
    have hshorter : ∀ {seen rest m}, r.searchFrom seen rest = some m →
        m.matched ≠ [] ∧ m.after.length < rest.length := by
      intro seen rest m hm
      obtain ⟨hfinds, skipped, hskipped⟩ := finds_of_searchFrom hm
      have hne := hr _ _ _ hfinds.accepts
      have hlen := congrArg List.length hfinds.text_eq
      have hpos := List.length_pos_iff.mpr hne
      simp only [hskipped, List.length_append] at hlen
      exact ⟨hne, by omega⟩
    have hnil : ∀ fuel seen, r.matchesFrom fuel seen [] = [] := by
      intro fuel seen
      cases fuel with
      | zero => rfl
      | succ fuel =>
        rw [matchesFrom]
        cases hm : r.searchFrom seen [] with
        | none => rfl
        | some m => exact absurd (hshorter hm).2 (Nat.not_lt_zero _)
    intro n
    induction n with
    | zero =>
      intro fuel fuel' seen rest hn _ _
      obtain rfl := List.length_eq_zero_iff.mp (Nat.le_zero.mp hn)
      rw [hnil, hnil]
    | succ n ih =>
      intro fuel fuel' seen rest hn hf hf'
      cases rest with
      | nil => rw [hnil, hnil]
      | cons c rest =>
        rw [List.length_cons] at hn hf hf'
        cases fuel with
        | zero => omega
        | succ fuel =>
          cases fuel' with
          | zero => omega
          | succ fuel' =>
            rw [matchesFrom, matchesFrom]
            cases hm : r.searchFrom seen (c :: rest) with
            | none => rfl
            | some m =>
              obtain ⟨-, hlt⟩ := hshorter hm
              rw [List.length_cons] at hlt
              dsimp only
              rw [ih fuel fuel' _ _ (by omega) (by omega) (by omega)]
  exact hfuel rest.length fuel rest.length seen rest (Nat.le_refl _) h (Nat.le_refl _)

/-- A match that is not empty leaves less to read. -/
theorem length_rest_lt_of_first (hr : r.NonEmpty) {k k' : Cursor α} (h : r.first k = some k') :
    k'.rest.length < k.rest.length := by
  obtain ⟨w, hover, hacc⟩ := run_sound (List.mem_of_head? h)
  have hpos := List.length_pos_iff.mpr (hr _ _ _ hacc)
  have hlen := congrArg List.length hover.rest
  rw [List.length_append] at hlen
  omega

/-- **The next match, and those after it.** -/
theorem matchesAt_cons (hr : r.NonEmpty) {seen rest : List α} {k : Cursor α}
    (h : r.first ⟨seen, rest, []⟩ = some k) :
    r.matchesAt seen rest = matchTo seen k :: r.matchesAt k.seen k.rest := by
  obtain ⟨w, hover, hacc⟩ := run_sound (List.mem_of_head? h)
  have hne := hr _ _ _ hacc
  have hw : k.seen.drop seen.length = w := by
    rw [hover.seen]
    exact List.drop_left
  have hlt : k.rest.length < rest.length := length_rest_lt_of_first hr h
  obtain ⟨n, hn⟩ : ∃ n, rest.length = n + 1 := ⟨rest.length - 1, by omega⟩
  rw [matchesAt, hn, matchesFrom, searchFrom_of_first h]
  dsimp only [matchTo]
  rw [hw, if_neg (by simpa using hne), ← hover.seen, matchesFrom_fuel hr (by omega)]

/-- A part in which no match begins is passed over. -/
theorem matchesAt_skip (hr : r.NonEmpty) {seen u rest : List α}
    (h : ∀ u₁ c u₂, u = u₁ ++ c :: u₂ → ∀ w v, c :: u₂ ++ rest = w ++ v →
      ¬ r.Accepts (seen ++ u₁) w v) :
    r.matchesAt seen (u ++ rest) = r.matchesAt (seen ++ u) rest := by
  rw [← matchesFrom_fuel hr (Nat.le_refl _),
    ← matchesFrom_fuel hr (show rest.length ≤ (u ++ rest).length by simp)]
  cases (u ++ rest).length with
  | zero => rfl
  | succ fuel => rw [matchesFrom, matchesFrom, searchFrom_skip h]

/-- So is a single character. -/
theorem matchesAt_skip_one (hr : r.NonEmpty) {seen rest : List α} {c : α}
    (h : ∀ w v, c :: rest = w ++ v → ¬ r.Accepts seen w v) :
    r.matchesAt seen (c :: rest) = r.matchesAt (seen ++ [c]) rest := by
  refine matchesAt_skip (u := [c]) hr fun u₁ d u₂ hu w v hwv => ?_
  cases u₁ with
  | nil =>
    obtain ⟨rfl, rfl⟩ := List.cons.inj hu
    rw [List.append_nil]
    exact h w v hwv
  | cons _ u₁ => exact absurd (List.cons.inj hu).2 (by simp)

/-- Where no match begins any more, there are none. -/
theorem matchesAt_eq_nil {seen rest : List α}
    (h : ∀ u w v, rest = u ++ w ++ v → ¬ r.Accepts (seen ++ u) w v) :
    r.matchesAt seen rest = [] := by
  unfold matchesAt
  cases rest.length with
  | zero => rfl
  | succ fuel => rw [matchesFrom, searchFrom_eq_none h]

/-! ## Scanners -/

/-- How a scanner `scan` of texts goes on where the iterator stands: it is done,
passes over a part in which no match begins, or takes what `f` reads off the
match. -/
inductive ScanStep {β : Type v} (r : Regex α) (f : Match α → β) (scan : List α → List β)
    (seen : List α) : List α → Prop
  | done {rest : List α} : r.matchesAt seen rest = [] → scan rest = [] →
      ScanStep r f scan seen rest
  | skip {u rest : List α} : u ≠ [] →
      r.matchesAt seen (u ++ rest) = r.matchesAt (seen ++ u) rest → scan (u ++ rest) = scan rest →
      ScanStep r f scan seen (u ++ rest)
  | take {rest : List α} {k : Cursor α} : r.first ⟨seen, rest, []⟩ = some k →
      scan rest = f (matchTo seen k) :: scan k.rest → ScanStep r f scan seen rest

/-- **A scanner that goes on like the iterator** finds what the iterator finds. -/
theorem map_matchesAt {β : Type v} {f : Match α → β} {scan : List α → List β} (hr : r.NonEmpty)
    (hstep : ∀ seen rest, ScanStep r f scan seen rest) (seen rest : List α) :
    (r.matchesAt seen rest).map f = scan rest := by
  obtain ⟨n, hn⟩ : ∃ n, rest.length < n := ⟨_, Nat.lt_succ_self _⟩
  induction n generalizing seen rest with
  | zero => exact absurd hn (Nat.not_lt_zero _)
  | succ n ih =>
    cases hstep seen rest with
    | done hmatches hscan => rw [hmatches, hscan, List.map_nil]
    | @skip u rest hu hmatches hscan =>
      have hpos := List.length_pos_iff.mpr hu
      rw [List.length_append] at hn
      rw [hmatches, hscan, ih _ _ (by omega)]
    | @take _ k hfirst hscan =>
      have hlt : k.rest.length < rest.length := length_rest_lt_of_first hr hfirst
      rw [matchesAt_cons hr hfirst, hscan, List.map_cons, ih _ _ (by omega)]

end Regex

end Lib
