import GittyUp.Lib.Bytes

/-!
# The first occurrence of a delimiter

`cutAt` cuts a list at the first occurrence of a delimiter. Where the first
occurrence is known (`NoneBefore`), a cut there is found, and a part of the
message that contains the delimiter contains all that stands before it.
-/

namespace Lib

variable {α : Type} [DecidableEq α]

/-- What stands before and behind the first occurrence of `sep`. -/
def cutAt (sep : List α) : List α → Option (List α × List α)
  | [] => none
  | c :: s =>
    if sep <+: c :: s then some ([], (c :: s).drop sep.length)
    else (cutAt sep s).map fun p => (c :: p.1, p.2)

omit [DecidableEq α] in
/-- No occurrence of `sep` in `s` begins before the position `n`. -/
def NoneBefore (sep : List α) (n : Nat) (s : List α) : Prop :=
  ∀ u v, s = u ++ sep ++ v → n ≤ u.length

theorem cutAt_append {sep u v : List α} (hne : sep ≠ [])
    (hfirst : NoneBefore sep u.length (u ++ sep ++ v)) :
    cutAt sep (u ++ sep ++ v) = some (u, v) := by
  induction u with
  | nil =>
    obtain ⟨c, sep, rfl⟩ := List.exists_cons_of_ne_nil hne
    have hpre : c :: sep <+: c :: (sep ++ v) := List.prefix_append (c :: sep) v
    show cutAt (c :: sep) (c :: (sep ++ v)) = _
    rw [cutAt, if_pos hpre]
    simp
  | cons d u ih =>
    have hnot : ¬ sep <+: d :: (u ++ sep ++ v) := by
      rintro ⟨v', hv'⟩
      exact absurd (hfirst [] v' hv'.symm) (by simp)
    have hlater : NoneBefore sep u.length (u ++ sep ++ v) := by
      intro u' v' h
      exact Nat.le_of_succ_le_succ (hfirst (d :: u') v' (congrArg (d :: ·) h))
    show cutAt sep (d :: (u ++ sep ++ v)) = _
    rw [cutAt, if_neg hnot, ih hlater]
    rfl

/-- The first position of an element behind a word without it. -/
theorem idxOf?_append_cons {c : α} {u : List α} (h : c ∉ u) (v : List α) :
    (u ++ c :: v).idxOf? c = some u.length := by
  induction u with
  | nil => rw [List.nil_append, List.idxOf?_cons, BEq.rfl, if_pos rfl, List.length_nil]
  | cons d u ih =>
    obtain ⟨hd, hu⟩ := not_or.mp (mt List.mem_cons.mpr h)
    rw [List.cons_append, List.idxOf?_cons, beq_false_of_ne (Ne.symm hd), ih hu]
    rfl

omit [DecidableEq α]

/-- A delimiter does not begin within a word without its first element. -/
theorem noneBefore_word {c : α} {sep w s : List α} (h : c ∉ w) :
    NoneBefore (c :: sep) w.length (w ++ s) := by
  intro u v heq
  rw [List.append_assoc] at heq
  rcases List.append_eq_append_iff.mp heq with ⟨d, rfl, -⟩ | ⟨d, rfl, hd⟩
  · simp
  · cases d with
    | nil => simp
    | cons e d =>
      obtain ⟨rfl, -⟩ := List.cons.inj hd
      simp at h

/-- A part of the message that contains the delimiter contains what stands
before the end of its first occurrence. -/
theorem prefix_of_infix {sep p q x y : List α} (hpq : p ++ q = x ++ y) (hin : sep <:+: p)
    {n : Nat} (hfirst : NoneBefore sep n (x ++ y)) (hlen : x.length ≤ n + sep.length) :
    ∃ tail, p = x ++ tail ∧ tail ++ q = y := by
  obtain ⟨u, w, rfl⟩ := hin
  have hn : n ≤ u.length := hfirst u (w ++ q) (by rw [← hpq]; simp)
  have hle : x.length ≤ (u ++ sep ++ w).length := by
    simp only [List.length_append]
    omega
  obtain ⟨tail, htail⟩ := List.prefix_of_prefix_length_le (List.prefix_append x y)
    ⟨q, hpq⟩ hle
  refine ⟨tail, htail.symm, ?_⟩
  rw [← htail, List.append_assoc] at hpq
  exact List.append_cancel_left hpq

end Lib
