import GittyUp.Http.Syntax
import GittyUp.Lib.Cut

/-!
# Lines, and the first blank line

A head is a list of lines, each ended by CR LF. Behind lines that are not empty
the first blank line is the one that ends the head, whatever the body is.
-/

namespace GittyUp

open Lib

/-- The lines, each with its line end. -/
def terminated (lines : List Bytes) : Bytes := lines.flatMap fun line => line ++ [cr, lf]

/-- The lines with a line end between them. -/
def joinLines : List Bytes → Bytes
  | [] => []
  | [line] => line
  | line :: lines => line ++ [cr, lf] ++ joinLines lines

/-- Split at every line end. -/
def splitLines : Bytes → List Bytes
  | [] => [[]]
  | [c] => [[c]]
  | c :: d :: s =>
    if c = cr ∧ d = lf then [] :: splitLines s
    else (splitLines (d :: s)).modifyHead (c :: ·)

/-- A line of a head: not empty, and without a line break. -/
def IsLine (line : Bytes) : Prop := line ≠ [] ∧ OneLine line

theorem terminated_cons (line : Bytes) (lines : List Bytes) :
    terminated (line :: lines) = line ++ [cr, lf] ++ terminated lines := rfl

theorem length_le_terminated (lines : List Bytes) : lines.length ≤ (terminated lines).length := by
  induction lines with
  | nil => exact Nat.zero_le _
  | cons line lines ih =>
    simp only [terminated_cons, List.length_append, List.length_cons, List.length_nil]
    omega

theorem terminated_eq_joinLines {lines : List Bytes} (hne : lines ≠ []) :
    terminated lines = joinLines lines ++ [cr, lf] := by
  induction lines with
  | nil => exact absurd rfl hne
  | cons line lines ih =>
    cases lines with
    | nil => simp [terminated, joinLines]
    | cons line' lines =>
      have hjoin : joinLines (line :: line' :: lines) =
          line ++ [cr, lf] ++ joinLines (line' :: lines) := rfl
      rw [terminated_cons, ih (List.cons_ne_nil _ _), hjoin, List.append_assoc _ (joinLines _)]

/-! ## Splitting into lines -/

theorem splitLines_line {line : Bytes} (h : OneLine line) : splitLines line = [line] := by
  induction line with
  | nil => rfl
  | cons c line ih =>
    obtain ⟨hc, hline⟩ := List.forall_mem_cons.mp h
    cases line with
    | nil => rfl
    | cons d line => rw [splitLines, if_neg fun h => hc.2 h.1, ih hline, List.modifyHead_cons]

/-- A line is split off its text. -/
theorem splitLines_append {line : Bytes} (h : OneLine line) (s : Bytes) :
    splitLines (line ++ [cr, lf] ++ s) = line :: splitLines s := by
  induction line with
  | nil => exact if_pos ⟨rfl, rfl⟩
  | cons c line ih =>
    obtain ⟨hc, hline⟩ := List.forall_mem_cons.mp h
    obtain ⟨d, rest, hrest⟩ : ∃ d rest, line ++ [cr, lf] ++ s = d :: rest := by
      cases line with
      | nil => exact ⟨_, _, rfl⟩
      | cons d line => exact ⟨_, _, rfl⟩
    have hsplit := ih hline
    rw [hrest] at hsplit
    rw [List.cons_append, List.cons_append, hrest, splitLines, if_neg fun h => hc.2 h.1, hsplit,
      List.modifyHead_cons]

/-- **The lines of a head come back as they were joined.** -/
theorem splitLines_joinLines {lines : List Bytes} (hne : lines ≠ [])
    (h : ∀ line ∈ lines, OneLine line) : splitLines (joinLines lines) = lines := by
  induction lines with
  | nil => exact absurd rfl hne
  | cons line lines ih =>
    obtain ⟨hline, hlines⟩ := List.forall_mem_cons.mp h
    cases lines with
    | nil => exact splitLines_line hline
    | cons line' lines => rw [joinLines, splitLines_append hline, ih (by simp) hlines]; simp

/-! ## The first blank line -/

/-- Behind lines without a line feed, no blank line begins before the last line end. -/
theorem noneBefore_blank_of_lf {lines : List Bytes} (h : ∀ line ∈ lines, line ≠ [] ∧ lf ∉ line)
    (body : Bytes) : NoneBefore [cr, lf, cr, lf] ((terminated lines).length - 2)
      (terminated lines ++ [cr, lf] ++ body) := by
  induction lines with
  | nil => intro u v _; simp [terminated]
  | cons line lines ih =>
    obtain ⟨⟨hne, hline⟩, hlines⟩ := List.forall_mem_cons.mp h
    intro u v heq
    have htext : line ++ ([cr, lf] ++ (terminated lines ++ ([cr, lf] ++ body))) =
        u ++ ([cr, lf, cr, lf] ++ v) := by
      rw [← List.append_assoc u, ← heq, terminated_cons]
      simp only [List.append_assoc]
    have hle : line.length ≤ u.length := by
      have hlf : lf ∉ line ++ [cr] := fun hmem => (List.mem_append.mp hmem).elim hline (by decide)
      have hfirst := noneBefore_word hlf (u ++ [cr]) ([cr, lf] ++ v)
        (show (line ++ [cr]) ++ lf :: (terminated lines ++ ([cr, lf] ++ body)) =
          (u ++ [cr]) ++ [lf] ++ ([cr, lf] ++ v) by simpa using htext)
      simpa using hfirst
    obtain ⟨d, rfl⟩ := List.prefix_of_prefix_length_le ⟨_, htext⟩ (List.prefix_append u _) hle
    rw [List.append_assoc line d, List.append_cancel_left_eq] at htext
    rw [terminated_cons, List.length_append, List.length_append, List.length_append]
    -- the blank line begins at the end of this line, or behind it
    match d, htext with
    | [], htext =>
      have hlast : lines = [] := by
        by_contra hmore
        obtain ⟨line', lines, rfl⟩ := List.exists_cons_of_ne_nil hmore
        obtain ⟨hne', hlf'⟩ := hlines _ List.mem_cons_self
        have hcons := @List.append_cancel_left _ [cr, lf] _ _ htext
        match line', hne' with
        | [c], _ =>
          have hc : cr = lf := (List.cons.inj (List.cons.inj hcons).2).1
          exact absurd hc (by decide)
        | c :: d :: line', _ =>
          have hd : d = lf := (List.cons.inj (List.cons.inj hcons).2).1
          exact hlf' (by simp [hd])
      subst hlast
      simp [terminated]
    | [x], htext =>
      simp only [List.cons_append, List.nil_append, List.cons.injEq] at htext
      exact absurd htext.2.1 (by decide)
    | x :: y :: d, htext =>
      have hrest : terminated lines ++ [cr, lf] ++ body = d ++ [cr, lf, cr, lf] ++ v := by
        simp only [List.cons_append, List.nil_append, List.cons.injEq] at htext
        simpa using htext.2.2
      have := ih hlines d v hrest
      simp only [List.length_cons, List.length_nil]
      omega

/-- No blank line begins before the last line end of the head. -/
theorem noneBefore_blank {lines : List Bytes} (h : ∀ line ∈ lines, IsLine line) (body : Bytes) :
    NoneBefore [cr, lf, cr, lf] ((terminated lines).length - 2)
      (terminated lines ++ [cr, lf] ++ body) :=
  noneBefore_blank_of_lf (fun line hline => ⟨(h line hline).1, (h line hline).2.lf_not_mem⟩) body

end GittyUp
