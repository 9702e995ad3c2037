import GittyUp.Lib.Regex

/-!
# Searching with a regex (`std::regex_search`, `std::sregex_iterator`)

A search takes the leftmost position at which the regex matches, and the first
end that the matcher prefers there. `Finds` says what any match found is;
`search_eq_none_iff` says when there is none.
-/

namespace Lib

universe u

variable {α : Type u}

/-- `std::smatch` after a successful search. -/
structure Match (α : Type u) where
  before : List α
  matched : List α
  after : List α
  groups : List (Nat × List α)

/-- `m.str(n)`; a group that took no part is empty. -/
def Match.str (m : Match α) (n : Nat) : List α :=
  if n = 0 then m.matched else (m.groups.lookup n).getD []

namespace Regex

/-! ## The search -/

/-- The search in `rest`, where `seen` has been passed over without a match. -/
def searchFrom (r : Regex α) : List α → List α → Option (Match α)
  | seen, [] =>
    ((r.run ⟨seen, [], []⟩).head?).map fun k =>
      ⟨seen, k.seen.drop seen.length, k.rest, k.groups⟩
  | seen, c :: rest =>
    match (r.run ⟨seen, c :: rest, []⟩).head? with
    | some k => some ⟨seen, k.seen.drop seen.length, k.rest, k.groups⟩
    | none => searchFrom r (seen ++ [c]) rest

/-- `std::regex_search`. -/
def search (r : Regex α) (text : List α) : Option (Match α) := searchFrom r [] text

/-- The matches a `std::sregex_iterator` visits from a position on, at most
`fuel` of them. The modelled iterators run over regexes that match no empty
word; the rule for an empty match is left out, and one ends the iteration. -/
def matchesFrom (r : Regex α) : Nat → List α → List α → List (Match α)
  | 0, _, _ => []
  | fuel + 1, seen, rest =>
    match searchFrom r seen rest with
    | none => []
    | some m =>
      m :: if m.matched.isEmpty then [] else matchesFrom r fuel (m.before ++ m.matched) m.after

/-- `std::sregex_iterator(text.begin(), text.end(), r)`, all its matches. -/
def findAll (r : Regex α) (text : List α) : List (Match α) :=
  matchesFrom r text.length [] text

/-! ## What a search finds -/

/-- `m` is a match of `r` in `text`. -/
structure Finds (r : Regex α) (text : List α) (m : Match α) : Prop where
  text_eq : text = m.before ++ m.matched ++ m.after
  accepts : r.Accepts m.before m.matched m.after
  captured : ∀ g ∈ m.groups, r.Captured text g

theorem finds_of_mem_run {r : Regex α} {seen rest : List α} {k : Cursor α}
    (h : k ∈ r.run ⟨seen, rest, []⟩) :
    r.Finds (seen ++ rest) ⟨seen, k.seen.drop seen.length, k.rest, k.groups⟩ := by
  obtain ⟨w, hover, hacc⟩ := run_sound h
  have hw : k.seen.drop seen.length = w := by
    rw [hover.seen]
    exact List.drop_left
  refine ⟨?_, ?_, ?_⟩
  · show seen ++ rest = seen ++ _ ++ k.rest
    rw [hw, List.append_assoc]
    exact congrArg (seen ++ ·) hover.rest
  · rw [hw]
    exact hacc
  · exact fun g hg => (captured_of_mem_run h g hg).resolve_left List.not_mem_nil

theorem finds_of_searchFrom {r : Regex α} {seen rest : List α} {m : Match α}
    (h : searchFrom r seen rest = some m) :
    r.Finds (seen ++ rest) m ∧ ∃ skipped, m.before = seen ++ skipped := by
  induction rest generalizing seen with
  | nil =>
    obtain ⟨k, hk, rfl⟩ := Option.map_eq_some_iff.mp h
    exact ⟨finds_of_mem_run (List.mem_of_head? hk), [], (List.append_nil _).symm⟩
  | cons c rest ih =>
    rw [searchFrom] at h
    split at h
    · next k hk =>
      obtain rfl := Option.some.inj h
      exact ⟨finds_of_mem_run (List.mem_of_head? hk), [], (List.append_nil _).symm⟩
    · obtain ⟨hfinds, skipped, hskipped⟩ := ih h
      rw [List.append_assoc, List.singleton_append] at hfinds
      exact ⟨hfinds, c :: skipped, by rw [hskipped, List.append_assoc, List.singleton_append]⟩

/-- A match found is a match. -/
theorem finds_of_search {r : Regex α} {text : List α} {m : Match α}
    (h : r.search text = some m) : r.Finds text m :=
  (finds_of_searchFrom h).1

/-- Every match that the iterator visits is one. -/
theorem finds_of_mem_findAll {r : Regex α} {text : List α} {m : Match α}
    (h : m ∈ r.findAll text) : r.Finds text m := by
  have from_ : ∀ fuel seen rest, m ∈ matchesFrom r fuel seen rest → r.Finds (seen ++ rest) m := by
    intro fuel
    induction fuel with
    | zero => exact fun _ _ h => absurd h List.not_mem_nil
    | succ fuel ih =>
      intro seen rest h
      rw [matchesFrom] at h
      split at h
      · contradiction
      · next m' hm' =>
        have hfinds := (finds_of_searchFrom hm').1
        rcases List.mem_cons.mp h with rfl | h
        · exact hfinds
        · split_ifs at h
          · contradiction
          · rw [hfinds.text_eq]
            exact ih _ _ h
  exact from_ _ _ _ h

/-- **A search fails exactly when the regex matches nowhere in the text.** -/
theorem search_eq_none_iff {r : Regex α} {text : List α} :
    r.search text = none ↔ ∀ u w v, text = u ++ w ++ v → ¬ r.Accepts u w v := by
  constructor
  · have hfrom : ∀ rest seen, searchFrom r seen rest = none →
        ∀ u w v, rest = u ++ w ++ v → ¬ r.Accepts (seen ++ u) w v := by
      -- where the matcher finds no end, no word begins
      have here : ∀ {seen rest w v}, (r.run ⟨seen, rest, []⟩).head? = none → rest = w ++ v →
          ¬ r.Accepts seen w v := by
        intro seen rest w v hnone hrest hacc
        obtain ⟨k, hk, -⟩ := run_complete (k := ⟨seen, rest, []⟩) hrest hacc
        rw [List.head?_eq_none_iff.mp hnone] at hk
        exact List.not_mem_nil hk
      intro rest
      induction rest with
      | nil =>
        intro seen h u w v hrest
        obtain ⟨huw, rfl⟩ := List.append_eq_nil_iff.mp hrest.symm
        obtain ⟨rfl, rfl⟩ := List.append_eq_nil_iff.mp huw
        rw [List.append_nil]
        exact here (Option.map_eq_none_iff.mp h) rfl
      | cons c rest ih =>
        intro seen h u w v hrest
        rw [searchFrom] at h
        split at h
        · contradiction
        · next hnone =>
          cases u with
          | nil =>
            rw [List.append_nil]
            exact here hnone hrest
          | cons d u =>
            rw [List.cons_append, List.cons_append] at hrest
            obtain ⟨rfl, htail⟩ := List.cons.inj hrest
            have := ih (seen ++ [c]) h u w v htail
            rwa [List.append_assoc, List.singleton_append] at this
    intro h u w v htext
    simpa using hfrom text [] h u w v htext
  · intro h
    cases hm : r.search text with
    | none => rfl
    | some m => exact (h _ _ _ (finds_of_search hm).text_eq (finds_of_search hm).accepts).elim

theorem search_isSome_iff {r : Regex α} {text : List α} :
    (r.search text).isSome = true ↔ ∃ u w v, text = u ++ w ++ v ∧ r.Accepts u w v := by
  rw [Option.isSome_iff_ne_none, ne_eq, search_eq_none_iff]
  push Not
  rfl

/-- What `m.str(n)` returns for a group is empty or a word that it captured. -/
theorem Finds.str_group {r : Regex α} {text : List α} {m : Match α} (h : r.Finds text m) (n : Nat) :
    m.str (n + 1) = [] ∨ r.Captured text (n + 1, m.str (n + 1)) := by
  rw [Match.str, if_neg (Nat.succ_ne_zero n)]
  cases hlookup : m.groups.lookup (n + 1) with
  | none => exact .inl rfl
  | some w =>
    refine .inr (h.captured _ ?_)
    obtain ⟨before, after, hgroups, -⟩ := List.lookup_eq_some_iff.mp hlookup
    rw [hgroups]
    exact List.mem_append_right _ List.mem_cons_self

/-! ## The words of simple regexes -/

theorem accepts_char {p : α → Bool} {pre w post : List α} :
    (Regex.char p).Accepts pre w post ↔ ∃ c, w = [c] ∧ p c = true := Iff.rfl

theorem accepts_star_char {greedy : Bool} {p : α → Bool} {pre w post : List α} :
    (Regex.star greedy (.char p)).Accepts pre w post ↔ ∀ c ∈ w, p c = true := by
  constructor
  · intro h
    change Chain _ pre w post at h
    induction h with
    | nil => simp
    | cons _ hu _ ih =>
      obtain ⟨c, rfl, hp⟩ := hu
      exact List.forall_mem_cons.mpr ⟨hp, ih⟩
  · intro h
    show Chain _ pre w post
    induction w generalizing pre with
    | nil => exact .nil
    | cons c w ih =>
      obtain ⟨hp, hw⟩ := List.forall_mem_cons.mp h
      exact .cons (u := [c]) (List.cons_ne_nil c []) ⟨c, rfl, hp⟩ (ih hw)

theorem accepts_plus_char {greedy : Bool} {p : α → Bool} {pre w post : List α} :
    (Regex.plus greedy (.char p)).Accepts pre w post ↔ w ≠ [] ∧ ∀ c ∈ w, p c = true := by
  constructor
  · rintro ⟨u, v, rfl, ⟨c, rfl, hp⟩, hv⟩
    exact ⟨List.cons_ne_nil c v, List.forall_mem_cons.mpr ⟨hp, accepts_star_char.mp hv⟩⟩
  · rintro ⟨hne, hw⟩
    obtain ⟨c, v, rfl⟩ := List.exists_cons_of_ne_nil hne
    obtain ⟨hp, hv⟩ := List.forall_mem_cons.mp hw
    exact ⟨[c], v, rfl, ⟨c, rfl, hp⟩, accepts_star_char.mpr hv⟩

theorem accepts_literal [DecidableEq α] {s pre w post : List α} :
    (Regex.literal s).Accepts pre w post ↔ w = s := by
  induction s generalizing pre w with
  | nil => exact Iff.rfl
  | cons c s ih =>
    constructor
    · rintro ⟨u, v, rfl, ⟨d, rfl, hd⟩, hv⟩
      rw [of_decide_eq_true hd, ih.mp hv]
      rfl
    · rintro rfl
      exact ⟨[c], s, rfl, ⟨c, rfl, decide_eq_true rfl⟩, ih.mpr rfl⟩

/-! ## Regexes that match whole texts -/

/-- Every character that the regex can consume satisfies `P`. -/
def Within (P : α → Prop) : Regex α → Prop
  | .empty | .bol | .eol => True
  | .char p => ∀ c, p c = true → P c
  | .seq r s => r.Within P ∧ s.Within P
  | .star _ r | .group _ r => r.Within P

theorem within_plus_char {P : α → Prop} [DecidablePred P] {greedy : Bool} :
    (plus greedy (.char fun c => P c)).Within P :=
  ⟨fun _ hc => of_decide_eq_true hc, fun _ hc => of_decide_eq_true hc⟩

theorem Within.of_accepts {P : α → Prop} {r : Regex α} (h : r.Within P) {pre w post : List α}
    (hacc : r.Accepts pre w post) : ∀ c ∈ w, P c := by
  induction r generalizing pre w post with
  | empty =>
    obtain rfl : w = [] := hacc
    simp
  | char p =>
    obtain ⟨c, rfl, hp⟩ := hacc
    simpa using h c hp
  | seq r s ihr ihs =>
    obtain ⟨u, v, rfl, hu, hv⟩ := hacc
    exact List.forall_mem_append.mpr ⟨ihr h.1 hu, ihs h.2 hv⟩
  | star greedy r ih =>
    change Chain r.Accepts pre w post at hacc
    induction hacc with
    | nil => simp
    | cons _ hu _ ihw => exact List.forall_mem_append.mpr ⟨ih h hu, ihw⟩
  | group n r ih => exact ih h hacc
  | bol =>
    obtain ⟨-, rfl⟩ := hacc
    simp
  | eol =>
    obtain ⟨rfl, -⟩ := hacc
    simp

/-- A regex that ends in `$` matches only up to the end of the text. -/
theorem post_of_accepts_eol (rs : List (Regex α)) {pre w post : List α}
    (h : (concat (rs ++ [.eol])).Accepts pre w post) : post = [] := by
  induction rs generalizing pre w with
  | nil =>
    obtain ⟨u, v, rfl, ⟨rfl, hpost⟩, hv⟩ := h
    obtain rfl : v = [] := hv
    exact hpost
  | cons r rs ih =>
    obtain ⟨u, v, -, -, hv⟩ := h
    exact ih hv

/-- What is found between `^` and `$` is the whole text. -/
theorem accepts_of_anchored (rs : List (Regex α)) {text : List α}
    (h : ((concat (.bol :: (rs ++ [.eol]))).search text).isSome = true) :
    (concat (.bol :: (rs ++ [.eol]))).Accepts [] text [] := by
  obtain ⟨u, w, v, rfl, hacc⟩ := search_isSome_iff.mp h
  obtain rfl := post_of_accepts_eol (.bol :: rs) hacc
  obtain ⟨_, _, -, ⟨rfl, -⟩, -⟩ := id hacc
  rwa [List.nil_append, List.append_nil]

end Regex

/-! ## Character classes of the ECMAScript grammar, in the C locale -/

/-- `isalnum`, or an underscore. -/
def IsWordChar (c : Byte) : Prop :=
  IsDigit c ∨ ('A' ≤ c ∧ c ≤ 'Z') ∨ ('a' ≤ c ∧ c ≤ 'z') ∨ c = '_'

instance : DecidablePred IsWordChar := fun _ => inferInstanceAs (Decidable (_ ∨ _ ∨ _ ∨ _))

namespace Regex

/-- `\w`. -/
def word : Regex Byte := .char fun c => IsWordChar c

/-- `\d`. -/
def digit : Regex Byte := .char fun c => IsDigit c

/-- `.`, which matches no line terminator. -/
def dot : Regex Byte := .char fun c => c ≠ '\n' ∧ c ≠ '\r'

end Regex

end Lib
