import Mathlib.Data.List.AList

/-!
# `std::unordered_map`

An unordered map is an association list without duplicate keys (Mathlib's
`AList`). The order in which it is iterated is not specified: it may be any
permutation of the entries.
-/

namespace Lib

universe u v

/-- `std::unordered_map<κ, υ>`. -/
abbrev UnorderedMap (κ : Type u) (υ : Type v) := AList fun _ : κ => υ

section Lookup

variable {κ : Type u} {υ : Type v} [BEq κ] [LawfulBEq κ] {entries : List (κ × υ)}

/-- Among distinct keys, the lookup of an entry's key finds the entry. -/
theorem lookup_of_mem (hkeys : (entries.map Prod.fst).Nodup) {p : κ × υ} (hp : p ∈ entries) :
    entries.lookup p.1 = some p.2 := by
  induction entries with
  | nil => contradiction
  | cons q entries ih =>
    obtain ⟨hq, hkeys⟩ := List.nodup_cons.mp hkeys
    rcases List.mem_cons.mp hp with rfl | hp
    · rw [List.lookup_cons_self]
    · have hne : p.1 ≠ q.1 := fun h => hq (h ▸ List.mem_map_of_mem hp)
      rw [List.lookup_cons, beq_false_of_ne hne]
      exact ih hkeys hp

theorem lookup_eq_none_of_not_mem {k : κ} (h : k ∉ entries.map Prod.fst) :
    entries.lookup k = none := by
  refine List.lookup_eq_none_iff.mpr fun p hp => bne_iff_ne.mpr ?_
  rintro rfl
  exact h (List.mem_map_of_mem hp)

end Lookup

namespace UnorderedMap

variable {κ : Type u} {υ : Type v} [DecidableEq κ]

/-- `insert({k, v})`: an existing entry is kept. -/
def insertNew (m : UnorderedMap κ υ) (k : κ) (v : υ) : UnorderedMap κ υ :=
  if k ∈ m then m else AList.insert k v m

omit [DecidableEq κ] in
/-- A range-`for` over the map may visit the entries in the order `order`. -/
def IteratedAs (m : UnorderedMap κ υ) (order : List (κ × υ)) : Prop :=
  order.Perm (m.entries.map fun e => (e.1, e.2))

theorem lookup_insertNew (m : UnorderedMap κ υ) (k k' : κ) (v : υ) :
    (m.insertNew k v).lookup k' =
      (m.lookup k').or (if k' = k then some v else none) := by
  unfold insertNew
  by_cases hk' : k' = k
  · subst hk'
    by_cases hmem : k' ∈ m
    · obtain ⟨w, hw⟩ := Option.isSome_iff_exists.mp (AList.lookup_isSome.mpr hmem)
      rw [if_pos hmem, hw, Option.some_or]
    · rw [if_neg hmem, AList.lookup_insert, AList.lookup_eq_none.mpr hmem, if_pos rfl,
        Option.none_or]
  · rw [if_neg hk', Option.or_none]
    split_ifs
    · rfl
    · exact AList.lookup_insert_ne hk'

theorem IteratedAs.mem_iff {m : UnorderedMap κ υ} {order : List (κ × υ)}
    (h : m.IteratedAs order) (k : κ) (v : υ) : (k, v) ∈ order ↔ m.lookup k = some v := by
  rw [List.Perm.mem_iff h]
  have hlookup : v ∈ m.lookup k ↔ (⟨k, v⟩ : Sigma fun _ : κ => υ) ∈ m.entries :=
    AList.mem_lookup_iff
  rw [Option.mem_def] at hlookup
  rw [hlookup]
  simp only [List.mem_map, Prod.mk.injEq]
  constructor
  · rintro ⟨⟨k', v'⟩, hmem, rfl, rfl⟩
    exact hmem
  · exact fun hmem => ⟨⟨k, v⟩, hmem, rfl, rfl⟩

omit [DecidableEq κ] in
theorem IteratedAs.nodup {m : UnorderedMap κ υ} {order : List (κ × υ)} (h : m.IteratedAs order) :
    (order.map Prod.fst).Nodup := by
  refine ((List.Perm.map Prod.fst h).nodup_iff).mpr ?_
  rw [List.map_map]
  exact m.nodupKeys

/-! ## A log next to a map -/

variable [BEq κ] [LawfulBEq κ]

/-- A map and a log that were filled together from `entries`, of which the first for a
key counts: the log has the keys in order of their first entries, and both have the
value of that entry. -/
structure Logged (entries : List (κ × υ)) (m : UnorderedMap κ υ) (log : List (κ × υ)) : Prop where
  lookup : ∀ k, m.lookup k = entries.lookup k
  nodup : (log.map Prod.fst).Nodup
  keys : log.map Prod.fst = (entries.map Prod.fst).eraseDups
  first : ∀ p ∈ log, entries.lookup p.1 = some p.2

namespace Logged

variable {entries log : List (κ × υ)} {m : UnorderedMap κ υ} {k : κ}

omit [LawfulBEq κ] in
theorem empty : Logged [] (∅ : UnorderedMap κ υ) [] := by
  constructor <;> simp

theorem mem_entries_iff (h : Logged entries m log) : k ∈ m ↔ k ∈ entries.map Prod.fst := by
  rw [← AList.lookup_isSome, h.lookup, List.lookup_isSome_iff, List.mem_map]
  simp only [beq_iff_eq, @eq_comm κ k]

theorem mem_iff (h : Logged entries m log) : k ∈ log.map Prod.fst ↔ k ∈ m := by
  rw [h.keys, List.mem_eraseDups, h.mem_entries_iff]

omit [LawfulBEq κ] in
/-- An old first entry is still the first. -/
theorem first_append (h : Logged entries m log) (more : List (κ × υ)) {p : κ × υ} (hp : p ∈ log) :
    (entries ++ more).lookup p.1 = some p.2 := by
  rw [List.lookup_append, h.first p hp, Option.some_or]

/-- The first entry of a key goes to both. -/
theorem insert (h : Logged entries m log) (hk : k ∉ m) (v : υ) :
    Logged (entries ++ [(k, v)]) (m.insertNew k v) (log ++ [(k, v)]) := by
  have hlog : k ∉ log.map Prod.fst := mt h.mem_iff.mp hk
  have hentries : k ∉ entries.map Prod.fst := mt h.mem_entries_iff.mpr hk
  constructor
  · intro k'
    rw [lookup_insertNew, List.lookup_append, h.lookup]
    by_cases hk' : k' = k
    · simp [hk']
    · simp [hk', List.lookup_cons, beq_false_of_ne hk']
  · rw [List.map_append, List.nodup_append]
    refine ⟨h.nodup, List.nodup_singleton k, ?_⟩
    rintro a ha b hb rfl
    obtain rfl : a = k := List.mem_singleton.mp hb
    exact hlog ha
  · rw [List.map_append, List.map_append, List.eraseDups_append, h.keys]
    simp [List.removeAll, hentries, List.eraseDups_cons]
  · intro p hp
    rcases List.mem_append.mp hp with hp | hp
    · exact h.first_append _ hp
    · obtain rfl := List.mem_singleton.mp hp
      rw [List.lookup_append, lookup_eq_none_of_not_mem hentries]
      simp

/-- A later one to neither. -/
theorem keep (h : Logged entries m log) (hk : k ∈ m) (v : υ) :
    Logged (entries ++ [(k, v)]) m log := by
  have hentries : k ∈ entries.map Prod.fst := h.mem_entries_iff.mp hk
  constructor
  · intro k'
    rw [List.lookup_append, ← h.lookup]
    by_cases hk' : k' = k
    · obtain ⟨w, hw⟩ := Option.isSome_iff_exists.mp (AList.lookup_isSome.mpr hk)
      rw [hk', hw, Option.some_or]
    · simp [List.lookup_cons, beq_false_of_ne hk']
  · exact h.nodup
  · rw [List.map_append, List.eraseDups_append, h.keys]
    simp [List.removeAll, hentries]
  · exact fun p hp => h.first_append _ hp

end Logged

end UnorderedMap

end Lib
