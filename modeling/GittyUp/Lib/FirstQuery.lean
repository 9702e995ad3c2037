import GittyUp.Lib.Prog
import Mathlib.Data.List.Induction
import Mathlib.Data.List.Nodup

/-!
# Programs that take effect with their first query

The threads of a pool are lined up in the order of their first queries. Where the
first query of a program decides what the program does, the pool is as good as its
threads run one after another in this order: `first_queries` is the rule, with an
invariant of the store and an assertion for each thread in the line. The order
only grows at its end, so that it respects the order of threads of which one has
ended before the other begins (`begun_prefix`).
-/

namespace Lib

namespace Pool

variable {ε Q R α S ι : Type} [DecidableEq ι]

/-- The threads that have executed a query, in the order of their first ones. -/
def begun (trace : List (Event ι Q R)) : List ι :=
  trace.foldl (fun order e => if e.thread ∈ order then order else order ++ [e.thread]) []

theorem begun_concat (trace : List (Event ι Q R)) (e : Event ι Q R) :
    begun (trace ++ [e]) =
      if e.thread ∈ begun trace then begun trace else begun trace ++ [e.thread] := by
  rw [begun, List.foldl_append]
  rfl

theorem nodup_begun (trace : List (Event ι Q R)) : (begun trace).Nodup := by
  induction trace using List.reverseRecOn with
  | nil => exact List.nodup_nil
  | append_singleton trace e ih =>
    rw [begun_concat]
    by_cases he : e.thread ∈ begun trace
    · rwa [if_pos he]
    · rw [if_neg he]
      exact List.nodup_append.mpr ⟨ih, List.nodup_singleton _, by
        rintro i hi j hj rfl
        exact he (List.mem_singleton.mp hj ▸ hi)⟩

/-- A trace that goes on adds to the end of the order. -/
theorem begun_prefix (trace trace' : List (Event ι Q R)) :
    begun trace <+: begun (trace ++ trace') := by
  induction trace' using List.reverseRecOn with
  | nil => simp
  | append_singleton trace' e ih =>
    rw [← List.append_assoc, begun_concat]
    by_cases he : e.thread ∈ begun (trace ++ trace')
    · rwa [if_pos he]
    · rw [if_neg he]
      exact ih.trans (List.prefix_append _ _)

/-- What has been executed stays in the trace. -/
theorem trace_prefix {exec : S → Q → R × S} {s s' : Pool ε Q R α S ι}
    (h : Reachable (Step exec) s s') : s.trace <+: s'.trace := by
  refine h.invariant (P := fun s' => s.trace <+: s'.trace) (List.prefix_refl _) ?_
  rintro mid s' hmid ⟨-⟩
  exact hmid.trans (List.prefix_append _ _)

/-- The order of a later state goes on from that of an earlier one. -/
theorem begun_prefix_of_reachable {exec : S → Q → R × S} {s s' : Pool ε Q R α S ι}
    (h : Reachable (Step exec) s s') : begun s.trace <+: begun s'.trace := by
  obtain ⟨trace', htrace⟩ := trace_prefix h
  rw [← htrace]
  exact begun_prefix _ _

/-- **First queries decide.** `I order` says what the store is like when the
threads of `order` have begun, and `A order i` what the thread `i` of them has left
to do. A first query lines its thread up, a later one changes nothing of this, and
threads that begin later do not matter to an assertion. -/
theorem first_queries {exec : S → Q → R × S} {I : List ι → S → Prop}
    {A : List ι → ι → Prog ε Q R α → Prop} {db : S} {threads : ι → Prog ε Q R α}
    {s : Pool ε Q R α S ι} (h : Reachable (Step exec) (start db threads) s) (hinit : I [] db)
    (hfirst : ∀ order db i q k, I order db → i ∉ order → threads i = .call q k →
      I (order ++ [i]) (exec db q).2 ∧ A (order ++ [i]) i (k (exec db q).1))
    (hlater : ∀ order db i q k, I order db → A order i (.call q k) →
      I order (exec db q).2 ∧ A order i (k (exec db q).1))
    (hstable : ∀ order i j p, j ∉ order → A order i p → A (order ++ [j]) i p) :
    I (begun s.trace) s.shared ∧
      ∀ i, (i ∉ begun s.trace → s.threads i = threads i) ∧
        (i ∈ begun s.trace → A (begun s.trace) i (s.threads i)) := by
  refine h.invariant (P := fun s => I (begun s.trace) s.shared ∧
    ∀ i, (i ∉ begun s.trace → s.threads i = threads i) ∧
      (i ∈ begun s.trace → A (begun s.trace) i (s.threads i))) ?_ ?_
  · exact ⟨hinit, fun i => ⟨fun _ => rfl, fun hi => absurd hi List.not_mem_nil⟩⟩
  rintro s s' ⟨hI, hthreads⟩ hstep
  cases hstep with
  | @call i q k hi =>
    show I (begun (s.trace ++ [_])) _ ∧ ∀ j, (j ∉ begun (s.trace ++ [_]) →
      Function.update s.threads i _ j = threads j) ∧ (j ∈ begun (s.trace ++ [_]) →
        A (begun (s.trace ++ [_])) j (Function.update s.threads i _ j))
    rw [begun_concat]
    dsimp only
    by_cases hbegun : i ∈ begun s.trace
    · -- a later query of its thread
      rw [if_pos hbegun]
      obtain ⟨hI', hA'⟩ := hlater _ _ i q k hI (hi ▸ (hthreads i).2 hbegun)
      refine ⟨hI', fun j => ?_⟩
      by_cases hj : j = i
      · subst hj
        rw [Function.update_self]
        exact ⟨fun hnot => absurd hbegun hnot, fun _ => hA'⟩
      · rw [Function.update_of_ne hj]
        exact hthreads j
    · rw [if_neg hbegun]
      obtain ⟨hI', hA'⟩ := hfirst _ _ i q k hI hbegun (((hthreads i).1 hbegun).symm.trans hi)
      refine ⟨hI', fun j => ?_⟩
      by_cases hj : j = i
      · subst hj
        rw [Function.update_self]
        exact ⟨fun hnot => absurd (by simp) hnot, fun _ => hA'⟩
      · rw [Function.update_of_ne hj, List.mem_append, List.mem_singleton, or_iff_left hj]
        exact ⟨(hthreads j).1, fun hmem => hstable _ j i _ hbegun ((hthreads j).2 hmem)⟩

end Pool

end Lib
