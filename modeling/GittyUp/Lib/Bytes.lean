import Mathlib.Data.List.Basic
import Mathlib.Data.List.TakeWhile

/-!
# Byte strings

A C++ `std::string` is a finite sequence of `char`, here a list of 8-bit
values. Character and string literals of the modelled code are read as bytes
through two coercions (`'x'` is its ASCII code, `"abc"` the list of its codes),
so that a definition can be compared with its source literal by literal.
-/

namespace Lib

universe u

/-- One `char`. -/
abbrev Byte := UInt8

/-- One `std::string`. -/
abbrev Bytes := List Byte

attribute [simp] Char.toUInt8

instance : Coe Char Byte := ⟨Char.toUInt8⟩

/-- A property of all bytes of a string is decided by going through the string,
never by trying all 256 bytes. -/
instance (priority := high) (p : Byte → Prop) [DecidablePred p] (s : Bytes) :
    Decidable (∀ c ∈ s, p c) := List.decidableBAll p s

/-- The bytes of a string literal (ASCII). -/
def lit (s : String) : Bytes := s.toList.map Char.toUInt8

instance : Coe String Bytes := ⟨lit⟩

/-- Bytes without a NUL: exactly those that survive a round trip through a
C string (`c_str()`). -/
def NulFree (s : Bytes) : Prop := 0 ∉ s

instance : DecidablePred NulFree := fun _ => inferInstanceAs (Decidable (¬ _))

/-- What is left of a string that is read as a C string. -/
def cStr (s : Bytes) : Bytes := s.takeWhile (· ≠ 0)

theorem cStr_of_nulFree {s : Bytes} (h : NulFree s) : cStr s = s := by
  rw [cStr, List.takeWhile_eq_self_iff]
  intro c hc
  exact decide_eq_true fun h0 => h (h0 ▸ hc)

theorem nulFree_cStr (s : Bytes) : NulFree (cStr s) := by
  intro h
  rw [cStr] at h
  exact absurd (List.mem_takeWhile_imp h) (by decide)

/-- A list has no element satisfying `p`, or is cut at the first one. -/
theorem exists_cut {α : Type} (p : α → Prop) [DecidablePred p] (s : List α) :
    (∀ d ∈ s, ¬ p d) ∨
      ∃ body d tail, s = body ++ d :: tail ∧ (∀ x ∈ body, ¬ p x) ∧ p d := by
  cases hf : s.find? (fun d => decide (p d)) with
  | none => exact .inl (by simpa using hf)
  | some d =>
    obtain ⟨hd, body, tail, hs, hbody⟩ := List.find?_eq_some_iff_append.mp hf
    exact .inr ⟨body, d, tail, hs, by simpa using hbody, by simpa using hd⟩

/-- A list begins with a longest run of `p`. -/
theorem exists_run {α : Type} (p : α → Prop) [DecidablePred p] (s : List α) :
    ∃ u v, s = u ++ v ∧ (∀ d ∈ u, p d) ∧ ∀ d, v.head? = some d → ¬ p d := by
  rcases exists_cut (fun d => ¬ p d) s with hall | ⟨u, d, v, rfl, hu, hd⟩
  · exact ⟨s, [], (List.append_nil s).symm, by simpa using hall, by simp⟩
  · exact ⟨u, d :: v, rfl, by simpa using hu, by simpa using hd⟩

/-- The longest run of `p` is unique. -/
theorem run_cancel {α : Type} {p : α → Prop} {u u' v v' : List α} {c c' : α}
    (hu : ∀ d ∈ u, p d) (hu' : ∀ d ∈ u', p d) (hc : ¬ p c) (hc' : ¬ p c')
    (h : u ++ c :: v = u' ++ c' :: v') : u = u' ∧ c = c' ∧ v = v' := by
  induction u generalizing u' with
  | nil =>
    cases u' with
    | nil => exact ⟨rfl, List.cons.inj h⟩
    | cons d u' =>
      obtain ⟨rfl, -⟩ := List.cons.inj h
      exact absurd (hu' c List.mem_cons_self) hc
  | cons d u ih =>
    cases u' with
    | nil =>
      obtain ⟨rfl, -⟩ := List.cons.inj h
      exact absurd (hu d List.mem_cons_self) hc'
    | cons d' u' =>
      obtain ⟨rfl, htail⟩ := List.cons.inj h
      obtain ⟨rfl, hcv⟩ := ih (List.forall_mem_cons.mp hu).2 (List.forall_mem_cons.mp hu').2 htail
      exact ⟨rfl, hcv⟩

/-- The cut at the first occurrence of `c` is unique. -/
theorem append_cons_cancel {α : Type} {c : α} {u u' v v' : List α} (hu : c ∉ u) (hu' : c ∉ u')
    (h : u ++ c :: v = u' ++ c :: v') : u = u' ∧ v = v' := by
  have hself : ¬ c ≠ c := fun h => h rfl
  obtain ⟨huu, -, hvv⟩ := run_cancel (p := fun d => d ≠ c) (fun d hd => ne_of_mem_of_not_mem hd hu)
    (fun d hd => ne_of_mem_of_not_mem hd hu') hself hself h
  exact ⟨huu, hvv⟩

/-- The cut at the last occurrence of `c` is unique. -/
theorem append_cons_cancel_right {α : Type} {c : α} {u u' v v' : List α} (hv : c ∉ v)
    (hv' : c ∉ v') (h : u ++ c :: v = u' ++ c :: v') : u = u' ∧ v = v' := by
  have hrev := congrArg List.reverse h
  simp only [List.reverse_append, List.reverse_cons, List.append_assoc,
    List.singleton_append] at hrev
  obtain ⟨hvs, hus⟩ := append_cons_cancel (mt List.mem_reverse.mp hv)
    (mt List.mem_reverse.mp hv') hrev
  exact ⟨List.reverse_injective hus, List.reverse_injective hvs⟩

/-- A list is cut at the last occurrence of an element. -/
theorem exists_last_cut {α : Type} {c : α} {s : List α} (h : c ∈ s) :
    ∃ u v, s = u ++ c :: v ∧ c ∉ v := by
  obtain ⟨v, u, hrev, hv⟩ := List.eq_append_cons_of_mem (List.mem_reverse.mpr h)
  refine ⟨u.reverse, v.reverse, ?_, mt List.mem_reverse.mp hv⟩
  have hs := congrArg List.reverse hrev
  simpa using hs

/-- The cuts of a list with an element put at its end: at that element, or before. -/
theorem exists_cut_concat {α : Type u} {p : List α → List α → Prop} {c d : α} {s : List α} :
    (∃ u v, s ++ [d] = u ++ c :: v ∧ p u v) ↔
      (d = c ∧ p s []) ∨ ∃ u v, s = u ++ c :: v ∧ p u (v ++ [d]) := by
  constructor
  · rintro ⟨u, v, h, hp⟩
    rcases List.eq_nil_or_concat v with rfl | ⟨v, e, rfl⟩
    · obtain ⟨rfl, rfl⟩ := List.append_singleton_inj.mp h
      exact .inl ⟨rfl, hp⟩
    · rw [List.concat_eq_append] at h hp
      rw [← List.cons_append, ← List.append_assoc] at h
      obtain ⟨rfl, rfl⟩ := List.append_singleton_inj.mp h
      exact .inr ⟨u, v, rfl, hp⟩
  · rintro (⟨rfl, hp⟩ | ⟨u, v, rfl, hp⟩)
    · exact ⟨s, [], rfl, hp⟩
    · exact ⟨u, v ++ [d], by simp, hp⟩

/-- A run of `p` does not reach past a character that is not one. -/
theorem length_le_of_run {α : Type u} {p : α → Prop} {u v w rest : List α}
    (h : u ++ v = w ++ rest) (hu : ∀ d ∈ u, p d) (hstop : ∀ c, rest.head? = some c → ¬ p c) :
    u.length ≤ w.length := by
  rcases List.append_eq_append_iff.mp h with ⟨d, rfl, -⟩ | ⟨d, rfl, hd⟩
  · simp
  · cases d with
    | nil => simp
    | cons c d => exact absurd (hu c (by simp)) (hstop c (by rw [hd]; rfl))

end Lib
