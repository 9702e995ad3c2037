import GittyUp.Lib.SqlRecords
import Mathlib.Data.List.Infix

/-!
# The operator `LIKE` and substrings

`Like` is the operator as SQL documents it: `%` stands for any run, `_` for one
character, and any other character of the pattern for itself, in either case. What
one character is depends on the encoding of the text, and is a parameter. For
text of one-byte characters the relation is the function `like` (`like_iff`).

A pattern `%v%` matches every text that contains `v`; it matches no others when
`v` has no wildcard in it (`like_around_iff`), and some others when it has one
(`not_occurs_filled`).
-/

namespace Lib

/-- The characters of a pattern that do not stand for themselves. -/
def IsWildcard (c : Byte) : Prop := c = '%' ∨ c = '_'

instance : DecidablePred IsWildcard := fun _ => inferInstanceAs (Decidable (_ ∨ _))

/-- A text with no wildcard in it. -/
def IsLiteral (v : Bytes) : Prop := ∀ c ∈ v, ¬ IsWildcard c

instance : DecidablePred IsLiteral := fun _ => inferInstanceAs (Decidable (∀ _ ∈ _, _))

/-- `text LIKE pattern`, where one character is a string that satisfies `IsChar`. -/
inductive Like (IsChar : Bytes → Prop) : Bytes → Bytes → Prop
  | nil : Like IsChar [] []
  | run {pattern run text : Bytes} :
      Like IsChar pattern text → Like IsChar (('%' : Byte) :: pattern) (run ++ text)
  | one {char pattern text : Bytes} : IsChar char →
      Like IsChar pattern text → Like IsChar (('_' : Byte) :: pattern) (char ++ text)
  | same {p c : Byte} {pattern text : Bytes} : ¬ IsWildcard p → lowerCase p = lowerCase c →
      Like IsChar pattern text → Like IsChar (p :: pattern) (c :: text)

/-- `v` occurs in the text, upper and lower case alike. -/
def Occurs (v text : Bytes) : Prop := v.map lowerCase <:+: text.map lowerCase

instance (v text : Bytes) : Decidable (Occurs v text) :=
  inferInstanceAs (Decidable (_ <:+: _))

/-- The pattern `%v%`. -/
def around (v : Bytes) : Bytes := lit "%" ++ v ++ lit "%"

/-! ## One-byte characters -/

theorem like_percent_cons (pattern text : Bytes) :
    like (('%' : Byte) :: pattern) text = text.tails.any (like pattern) := by
  unfold like
  exact if_pos rfl

theorem like_cons_nil {p : Byte} (hp : p ≠ '%') (pattern : Bytes) :
    like (p :: pattern) [] = false := by
  unfold like
  exact if_neg hp

theorem like_cons_cons {p : Byte} (hp : p ≠ '%') (pattern : Bytes) (c : Byte) (text : Bytes) :
    like (p :: pattern) (c :: text) =
      ((p == '_' || lowerCase p == lowerCase c) && like pattern text) := by
  rw [like.eq_def]
  exact if_neg hp

theorem like_iff {pattern text : Bytes} :
    like pattern text ↔ Like (fun char => char.length = 1) pattern text := by
  constructor
  · intro h
    induction pattern generalizing text with
    | nil =>
      obtain rfl : text = [] := by simpa [like] using h
      exact .nil
    | cons p pattern ih =>
      by_cases hrun : p = '%'
      · subst hrun
        rw [like_percent_cons, List.any_eq_true] at h
        obtain ⟨rest, hrest, hlike⟩ := h
        obtain ⟨run, rfl⟩ := (List.mem_tails _ _).mp hrest
        exact .run (ih hlike)
      · cases text with
        | nil =>
          rw [like_cons_nil hrun] at h
          contradiction
        | cons c text =>
          simp only [like_cons_cons hrun, Bool.and_eq_true, Bool.or_eq_true, beq_iff_eq] at h
          by_cases hone : p = '_'
          · subst hone
            exact @Like.one _ [c] _ _ rfl (ih h.2)
          · exact .same (not_or.mpr ⟨hrun, hone⟩) (h.1.resolve_left hone) (ih h.2)
  · intro h
    induction h with
    | nil => rfl
    | @run pattern run text _ ih =>
      rw [like_percent_cons, List.any_eq_true]
      exact ⟨text, (List.mem_tails _ _).mpr (List.suffix_append _ _), ih⟩
    | @one char pattern text hchar _ ih =>
      obtain ⟨c, rfl⟩ := List.length_eq_one_iff.mp hchar
      rw [List.singleton_append, like_cons_cons (by decide)]
      simpa using ih
    | @same p c pattern text hp hcase _ ih =>
      rw [like_cons_cons (not_or.mp hp).1]
      simp [hcase, ih]

/-! ## Patterns around a text -/

section Around

variable {IsChar : Bytes → Prop}

/-- A literal beginning of a pattern matches itself, in either case. -/
theorem Like.of_literal_append {v pattern text : Bytes} (hv : IsLiteral v)
    (h : Like IsChar (v ++ pattern) text) :
    ∃ mid rest, text = mid ++ rest ∧ v.map lowerCase = mid.map lowerCase ∧
      Like IsChar pattern rest := by
  induction v generalizing text with
  | nil => exact ⟨[], text, rfl, rfl, h⟩
  | cons p v ih =>
    obtain ⟨hp, hv⟩ := List.forall_mem_cons.mp hv
    cases h with
    | run => exact absurd (.inl rfl) hp
    | one => exact absurd (.inr rfl) hp
    | same _ hcase hrest =>
      obtain ⟨mid, rest, rfl, hmid, hpattern⟩ := ih hv hrest
      exact ⟨_ :: mid, rest, rfl, congrArg₂ List.cons hcase hmid, hpattern⟩

theorem like_percent (text : Bytes) : Like IsChar (lit "%") text := by
  have h := @Like.run IsChar _ text _ .nil
  rwa [List.append_nil] at h

/-- The pattern `%v%` is `v` at some place of the text. -/
theorem like_around {v text : Bytes} : Like IsChar (around v) text ↔
    ∃ pre rest, text = pre ++ rest ∧ Like IsChar (v ++ lit "%") rest := by
  constructor
  · intro h
    cases h with
    | run h => exact ⟨_, _, rfl, h⟩
    | same hp => exact absurd (.inl rfl) hp
  · rintro ⟨pre, rest, rfl, h⟩
    exact .run h

theorem occurs_iff {v text : Bytes} : Occurs v text ↔
    ∃ pre mid post, text = pre ++ mid ++ post ∧ v.map lowerCase = mid.map lowerCase := by
  constructor
  · rintro ⟨pre, post, h⟩
    obtain ⟨front, post', rfl, hfront, -⟩ := List.map_eq_append_iff.mp h.symm
    obtain ⟨pre', mid, rfl, -, hmid⟩ := List.map_eq_append_iff.mp hfront
    exact ⟨pre', mid, post', rfl, hmid.symm⟩
  · rintro ⟨pre, mid, post, rfl, h⟩
    exact ⟨pre.map lowerCase, post.map lowerCase, by rw [h, List.map_append, List.map_append]⟩

theorem eq_of_lowerCase_underscore {c : Byte} (h : lowerCase c = lowerCase '_') : c = '_' := by
  rw [show lowerCase '_' = '_' by decide, lowerCase] at h
  split_ifs at h with hc
  · -- the letter would be `?`, which is none
    simp only [UInt8.le_iff_toNat_le, ← UInt8.toNat_inj] at *
    simp at *
    omega
  · exact h

/-- Every character is matched by itself, wildcards included. -/
theorem Like.append_of_same (hascii : ∀ c : Byte, c ≠ 0 → c < 128 → IsChar [c])
    {v mid pattern rest : Bytes} (h : v.map lowerCase = mid.map lowerCase)
    (hrest : Like IsChar pattern rest) : Like IsChar (v ++ pattern) (mid ++ rest) := by
  induction v generalizing mid with
  | nil =>
    obtain rfl := List.map_eq_nil_iff.mp h.symm
    exact hrest
  | cons p v ih =>
    obtain ⟨c, mid, rfl, hc, hmid⟩ := List.map_eq_cons_iff.mp h.symm
    have htail := ih hmid.symm
    by_cases hrun : p = '%'
    · subst hrun
      exact @Like.run _ _ [c] _ htail
    · by_cases hone : p = '_'
      · -- no letter is `_` in lower case
        subst hone
        obtain rfl := eq_of_lowerCase_underscore hc
        exact @Like.one _ ['_'] _ _ (hascii _ (by decide) (by decide)) htail
      · exact .same (not_or.mpr ⟨hrun, hone⟩) hc.symm htail

/-- What occurs in a text is found by the pattern around it. -/
theorem Occurs.like_around (hascii : ∀ c : Byte, c ≠ 0 → c < 128 → IsChar [c]) {v text : Bytes}
    (h : Occurs v text) : Like IsChar (around v) text := by
  obtain ⟨pre, mid, post, rfl, hmid⟩ := occurs_iff.mp h
  exact Lib.like_around.mpr ⟨pre, mid ++ post, List.append_assoc _ _ _,
    .append_of_same hascii hmid (like_percent post)⟩

/-- **A pattern around a literal finds the texts that contain it.** -/
theorem like_around_iff (hascii : ∀ c : Byte, c ≠ 0 → c < 128 → IsChar [c]) {v text : Bytes}
    (hv : IsLiteral v) : Like IsChar (around v) text ↔ Occurs v text := by
  refine ⟨fun h => ?_, fun h => h.like_around hascii⟩
  obtain ⟨pre, rest, rfl, hrest⟩ := like_around.mp h
  obtain ⟨mid, post, rfl, hmid, -⟩ := hrest.of_literal_append hv
  exact occurs_iff.mpr ⟨pre, mid, post, (List.append_assoc _ _ _).symm, hmid⟩

/-! ## What a wildcard finds besides -/

/-- The text with every wildcard used up: nothing for a `%`, and an `x` for a `_`. -/
def filled (v : Bytes) : Bytes :=
  (v.filter fun c : Byte => c ≠ '%').map fun c : Byte => if c = '_' then ('x' : Byte) else c

theorem like_filled (hascii : ∀ c : Byte, c ≠ 0 → c < 128 → IsChar [c]) (v : Bytes) :
    Like IsChar (around v) (filled v) := by
  refine like_around.mpr ⟨[], filled v, rfl, ?_⟩
  induction v with
  | nil => exact like_percent (filled [])
  | cons p v ih =>
    by_cases hrun : p = '%'
    · subst hrun
      exact @Like.run _ _ [] _ ih
    · rw [filled, List.filter_cons, if_pos (decide_eq_true hrun), List.map_cons]
      by_cases hone : p = '_'
      · subst hone
        exact @Like.one _ ['x'] _ _ (hascii _ (by decide) (by decide)) ih
      · rw [if_neg hone]
        exact .same (not_or.mpr ⟨hrun, hone⟩) rfl ih

theorem nulFree_filled {v : Bytes} (h : NulFree v) : NulFree (filled v) := by
  intro hmem
  obtain ⟨c, hc, hzero⟩ := List.mem_map.mp hmem
  split_ifs at hzero with hone
  · revert hzero
    decide
  · exact h (hzero ▸ (List.mem_filter.mp hc).1)

/-- A text with a wildcard does not contain itself once that is used up: it has
become shorter, or has an `x` where a `_` was. -/
theorem not_occurs_filled {v : Bytes} (hv : ¬ IsLiteral v) : ¬ Occurs v (filled v) := by
  intro h
  have hle := h.length_le
  rw [List.length_map, List.length_map, filled, List.length_map] at hle
  have hall := List.length_filter_eq_length_iff.mp (le_antisymm (List.length_filter_le _ v) hle)
  have hkeep : v.filter (fun c : Byte => c ≠ '%') = v := List.filter_eq_self.mpr hall
  have hsame : v.map lowerCase = (filled v).map lowerCase := by
    refine h.eq_of_length ?_
    rw [List.length_map, List.length_map, filled, List.length_map, hkeep]
  rw [filled, hkeep, List.map_map, List.map_inj_left] at hsame
  refine hv fun c hc hwild => ?_
  rcases hwild with rfl | rfl
  · exact absurd (hall _ hc) (by decide)
  · exact absurd (hsame _ hc) (by decide)

end Around

/-! ## Searches for several values -/

namespace ColumnValues

/-- Some value of the record is `LIKE` the one for its column between `%` signs. -/
def SomeLike (IsChar : Bytes → Prop) (values : ColumnValues) (r : Record) : Prop :=
  ∃ p ∈ values, ∃ text, r p.1 = some text ∧ Like IsChar (around p.2) text

/-- Some value of the record contains the one for its column. -/
def SomeOccurs (values : ColumnValues) (r : Record) : Prop :=
  ∃ p ∈ values, ∃ text, r p.1 = some text ∧ Occurs p.2 text

/-- What a value with a wildcard finds, some value of the same column occurs in; or
some value is empty, and occurs in everything. -/
def WildcardsHarmless (IsChar : Bytes → Prop) (values : ColumnValues) : Prop :=
  ∀ p ∈ values, ¬ IsLiteral p.2 → ∀ text, NulFree text → Like IsChar (around p.2) text →
    ∃ q ∈ values, q.1 = p.1 ∧ Occurs q.2 text ∨ q.2 = []

variable {IsChar : Bytes → Prop} {values : ColumnValues}

theorem any_occurs_iff (values : ColumnValues) (r : Record) :
    (values.any fun p => (r p.1).any fun text => Occurs p.2 text) ↔ values.SomeOccurs r := by
  simp [SomeOccurs, Option.any_eq_true]

instance (values : ColumnValues) : DecidablePred values.SomeOccurs :=
  fun r => decidable_of_iff _ (any_occurs_iff values r)

theorem SomeOccurs.someLike (hascii : ∀ c : Byte, c ≠ 0 → c < 128 → IsChar [c]) {r : Record}
    (h : values.SomeOccurs r) : values.SomeLike IsChar r := by
  obtain ⟨p, hp, text, htext, hoccurs⟩ := h
  exact ⟨p, hp, text, htext, hoccurs.like_around hascii⟩

/-- With harmless wildcards the records found are those that contain a value. -/
theorem WildcardsHarmless.someLike_iff (hascii : ∀ c : Byte, c ≠ 0 → c < 128 → IsChar [c])
    (h : values.WildcardsHarmless IsChar) {r : Record}
    (hr : ∀ p ∈ values, ∃ text, r p.1 = some text ∧ NulFree text) :
    values.SomeLike IsChar r ↔ values.SomeOccurs r := by
  refine ⟨?_, fun h => h.someLike hascii⟩
  rintro ⟨p, hp, text, htext, hlike⟩
  by_cases hv : IsLiteral p.2
  · exact ⟨p, hp, text, htext, (like_around_iff hascii hv).mp hlike⟩
  · have hnul : NulFree text := by
      obtain ⟨text', htext', hnul⟩ := hr p hp
      exact Option.some.inj (htext'.symm.trans htext) ▸ hnul
    obtain ⟨q, hq, ⟨hcolumn, hoccurs⟩ | hempty⟩ := h p hp hv text hnul hlike
    · exact ⟨q, hq, text, hcolumn ▸ htext, hoccurs⟩
    · obtain ⟨text', htext', -⟩ := hr q hq
      exact ⟨q, hq, text', htext', by rw [hempty]; exact List.nil_infix⟩

/-- A wildcard that does harm is seen in a record that is empty but for the text
it finds. -/
theorem WildcardsHarmless.of_someLike
    (h : ∀ r : Record, (∀ c, ∃ text, r c = some text ∧ NulFree text) →
      values.SomeLike IsChar r → values.SomeOccurs r) : values.WildcardsHarmless IsChar := by
  intro p hp _ text hnul hlike
  have hr : ∀ c, ∃ text', some (if c = p.1 then text else []) = some text' ∧ NulFree text' := by
    intro c
    refine ⟨_, rfl, ?_⟩
    split_ifs
    · exact hnul
    · exact List.not_mem_nil
  have hself : some (if p.1 = p.1 then text else []) = some text := by rw [if_pos rfl]
  obtain ⟨q, hq, text', htext', hoccurs⟩ := h _ hr ⟨p, hp, text, hself, hlike⟩
  refine ⟨q, hq, ?_⟩
  dsimp only at htext'
  by_cases hcolumn : q.1 = p.1
  · rw [if_pos hcolumn] at htext'
    exact .inl ⟨hcolumn, Option.some.inj htext' ▸ hoccurs⟩
  · rw [if_neg hcolumn] at htext'
    obtain rfl := Option.some.inj htext'
    exact .inr (List.map_eq_nil_iff.mp (List.infix_nil.mp hoccurs))

theorem wildcardsHarmless_of_literal (h : ∀ p ∈ values, IsLiteral p.2) :
    values.WildcardsHarmless IsChar := fun p hp hv => absurd (h p hp) hv

/-- Where all columns are searched for one value, its wildcards do harm. -/
theorem wildcardsHarmless_iff (hascii : ∀ c : Byte, c ≠ 0 → c < 128 → IsChar [c])
    (hne : values ≠ []) {v : Bytes} (hv : ∀ p ∈ values, p.2 = v) (hnul : NulFree v) :
    values.WildcardsHarmless IsChar ↔ IsLiteral v := by
  constructor
  · intro h
    by_contra hwild
    obtain ⟨p, hp⟩ := List.exists_mem_of_ne_nil values hne
    obtain ⟨q, hq, ⟨-, hoccurs⟩ | hempty⟩ := h p hp (hv p hp ▸ hwild) (filled v)
      (nulFree_filled hnul) (hv p hp ▸ like_filled hascii v)
    · exact not_occurs_filled hwild (hv q hq ▸ hoccurs)
    · rw [hv q hq] at hempty
      exact hwild (hempty ▸ List.forall_mem_nil _)
  · exact fun h => wildcardsHarmless_of_literal fun p hp => hv p hp ▸ h

end ColumnValues

/-! ## Engines that search -/

/-- What a table can hold: one text for each column, and no key twice. -/
structure Schema.IsContent (S : Schema) (rows : Multiset Row) : Prop where
  shape : ∀ row ∈ rows, row.length = S.columns.length
  text : ∀ row ∈ rows, ∀ v ∈ row, NulFree v
  keys : (rows.map fun row => S.cell row S.key).Nodup

/-- The engine searches by `LIKE`, in tables of any content. A character of ASCII is
one character. -/
structure Sqlite.Searches {Db : Type} (L : Sqlite Db) (S : Schema) (IsChar : Bytes → Prop) :
    Prop where
  ascii : ∀ c : Byte, c ≠ 0 → c < 128 → IsChar [c]
  content : ∀ rows, S.IsContent rows → ∃ db, L.rows db = rows
  search : ∀ db st t likes, st.Is S (.search t likes) →
    ∃ keep : Row → Bool, ((L.exec db st).1.rows : Multiset Row) = (L.rows db).filter (keep ·) ∧
      ∀ row ∈ L.rows db, keep row ↔ (given st.value likes).SomeLike IsChar (S.cell row)

theorem reference_searches (S : Schema) :
    (reference S).Searches S fun char => char.length = 1 where
  ascii _ _ _ := rfl
  content rows _ := ⟨rows.toList, Multiset.coe_toList rows⟩
  search db st t likes hst := by
    rw [reference_exec S hst]
    refine ⟨likesAny S st.value likes, by simp [execute, reference], fun row _ => ?_⟩
    rw [likesAny_eq_someLike, ColumnValues.someLike_iff, ColumnValues.SomeLike]
    simp only [like_iff, around]

/-- The cells of a row in a table are texts. -/
theorem Schema.IsContent.cell {S : Schema} {rows : Multiset Row} (h : S.IsContent rows) {row : Row}
    (hrow : row ∈ rows) {c : Bytes} (hc : c ∈ S.columns) :
    ∃ text, S.cell row c = some text ∧ NulFree text := by
  obtain ⟨text, hmem, htext⟩ := exists_cell hc (h.shape row hrow)
  exact ⟨text, htext, h.text row hrow text hmem⟩

/-- Every record is that of a table with one row. -/
theorem Schema.isContent_singleton (S : Schema) {r : Record}
    (hr : ∀ c, ∃ text, r c = some text ∧ NulFree text) :
    ∃ row, S.IsContent {row} ∧ ∀ c ∈ S.columns, S.cell row c = r c := by
  refine ⟨S.columns.map fun c => (r c).getD [], ⟨?_, ?_, ?_⟩, fun c hc => ?_⟩
  · intro row hrow
    rw [Multiset.mem_singleton.mp hrow, List.length_map]
  · intro row hrow v hv
    rw [Multiset.mem_singleton.mp hrow] at hv
    obtain ⟨c, -, rfl⟩ := List.mem_map.mp hv
    obtain ⟨text, htext, hnul⟩ := hr c
    rwa [htext]
  · rw [Multiset.map_singleton]
    exact Multiset.nodup_singleton _
  · obtain ⟨text, htext, -⟩ := hr c
    rw [Schema.cell, lookup_zip_map _ hc, htext]
    rfl

end Lib
