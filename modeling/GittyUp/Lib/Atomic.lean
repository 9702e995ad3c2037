import GittyUp.Lib.Hoare

/-!
# Programs that take effect at one query

The last query of a program has the effect of an abstract step, and those before it
leave the abstract state alone (`TakesEffect`). However the queries of a pool of such
programs are interleaved, there is one order of the programs that have ended in which
they have taken their steps, and it is never changed later (`Linearized.of_reachable`).
-/

namespace Lib

variable {ε Q R S A O ι : Type}

/-- The last query takes the step, and the queries before it take none, as long as the
store stays within its limits. -/
def TakesEffect (exec : S → Q → R × S) (within : S → Prop) (rel : A → S → Prop)
    (step : A → O → A → Prop) : Prog ε Q R O → Prop
  | .ret _ => False
  | .abort _ => False
  | .call q k => ∀ a s, rel a s → within (exec s q).2 →
      (rel a (exec s q).2 ∧ TakesEffect exec within rel step (k (exec s q).1)) ∨
        ∃ o a', k (exec s q).1 = .ret o ∧ step a o a' ∧ rel a' (exec s q).2

/-- A program with one query takes the step that it is specified to take. -/
theorem takesEffect_of_hoare {exec : S → Q → R × S} {within : S → Prop} {rel : A → S → Prop}
    {step : A → O → A → Prop} {q : Q} {k : R → Prog ε Q R O}
    (hlast : ∀ r, (∃ o, k r = .ret o) ∨ ∃ e, k r = .abort e)
    (h : ∀ a, Hoare exec (fun s => rel a s ∧ within (exec s q).2) (.call q k)
      fun o s' => ∃ a', step a o a' ∧ rel a' s') :
    TakesEffect exec within rel step (.call q k) := by
  intro a s hs hwithin
  obtain ⟨o, s', hrun, a', hstep, hrel⟩ := h a s ⟨hs, hwithin⟩
  change (k (exec s q).1).run exec (exec s q).2 = _ at hrun
  rcases hlast (exec s q).1 with ⟨o', hk⟩ | ⟨e, hk⟩
  · rw [hk] at hrun
    obtain ⟨hok, rfl⟩ := Prod.mk.inj hrun
    obtain rfl := Except.ok.inj hok
    exact .inr ⟨_, a', hk, hstep, hrel⟩
  · rw [hk] at hrun
    cases hrun

/-! ## Pools -/

section Pool

variable (exec : S → Q → R × S) (within : S → Prop) (rel : A → S → Prop)
  (step : ι → A → O → A → Prop) (a₀ : A)

/-- The threads in `log` have ended, in steps that were taken in this order, and no
other thread has taken one. -/
structure Linearized (start : ι → Prog ε Q R O) (s : Pool ε Q R O S ι) (log : List (ι × O))
    (a : A) : Prop where
  runs : Runs (fun a i o a' => step i a o a') a₀ log a
  shared : rel a s.shared
  once : (log.map Prod.fst).Nodup
  ended : ∀ i o, (i, o) ∈ log → s.threads i = .ret o
  waiting : ∀ i, i ∉ log.map Prod.fst →
    (∃ o, start i = .ret o ∧ s.threads i = .ret o) ∨
      TakesEffect exec within rel (step i) (s.threads i)

variable {exec within rel step a₀} {start : ι → Prog ε Q R O} {s s' : Pool ε Q R O S ι}
  {log : List (ι × O)} {a : A} [DecidableEq ι]

/-- **One query**: its thread takes its step, or none. -/
theorem Linearized.next (h : Linearized exec within rel step a₀ start s log a)
    (hstep : Pool.Step exec s s') (hwithin : within s'.shared) :
    ∃ log' a', log <+: log' ∧ Linearized exec within rel step a₀ start s' log' a' := by
  cases hstep with
  | @call i q k hi =>
    have hnot : i ∉ log.map Prod.fst := by
      intro hmem
      obtain ⟨⟨i', o⟩, hlog, rfl⟩ := List.mem_map.mp hmem
      have hended := h.ended i' o hlog
      rw [hi] at hended
      cases hended
    have hself : (s.executed exec i q k).threads i = k (exec s.shared q).1 :=
      Function.update_self _ _ _
    have hother : ∀ {j}, j ≠ i → (s.executed exec i q k).threads j = s.threads j :=
      fun hj => Function.update_of_ne hj _ _
    have hended : ∀ j o, (j, o) ∈ log → (s.executed exec i q k).threads j = .ret o := by
      intro j o hmem
      have hj : j ≠ i := fun heq => hnot (heq ▸ List.mem_map_of_mem hmem)
      rw [hother hj]
      exact h.ended j o hmem
    rcases h.waiting i hnot with ⟨o, -, hret⟩ | heffect
    · rw [hi] at hret
      cases hret
    rw [hi] at heffect
    rcases heffect a s.shared h.shared hwithin with ⟨hrel, hlater⟩ | ⟨o, a', hret, htaken, hrel⟩
    -- no step is taken
    · refine ⟨log, a, List.prefix_rfl, ⟨h.runs, hrel, h.once, hended, fun j hj => ?_⟩⟩
      by_cases hji : j = i
      · subst hji
        rw [hself]
        exact .inr hlater
      · rw [hother hji]
        exact h.waiting j hj
    -- the thread takes its step and ends
    · refine ⟨log ++ [(i, o)], a', List.prefix_append _ _,
        ⟨Runs.append_iff.mpr ⟨a, h.runs, .cons htaken .nil⟩, hrel, ?_, fun j o' hmem => ?_,
          fun j hj => ?_⟩⟩
      · rw [List.map_append, List.map_singleton, List.nodup_append]
        refine ⟨h.once, List.pairwise_singleton _ _, fun j hj j' hj' heq => hnot ?_⟩
        rwa [heq, List.mem_singleton.mp hj'] at hj
      · rcases List.mem_append.mp hmem with hmem | hmem
        · exact hended j o' hmem
        · obtain ⟨rfl, rfl⟩ := Prod.mk.inj (List.mem_singleton.mp hmem)
          rw [hself]
          exact hret
      · rw [List.map_append, List.mem_append, not_or] at hj
        have hji : j ≠ i := fun heq => hj.2 (List.mem_singleton.mpr heq)
        rw [hother hji]
        exact h.waiting j hj.1

/-- **Every interleaving is a run of the abstract machine**, which goes on as the
threads do. -/
theorem Linearized.of_reachable (hback : ∀ s q, within (exec s q).2 → within s)
    (h : Linearized exec within rel step a₀ start s log a) (hs : Reachable (Pool.Step exec) s s')
    (hwithin : within s'.shared) :
    ∃ log' a', log <+: log' ∧ Linearized exec within rel step a₀ start s' log' a' := by
  refine hs.invariant (P := fun s' => within s'.shared → ∃ log' a', log <+: log' ∧
    Linearized exec within rel step a₀ start s' log' a') (fun _ => ⟨log, a, List.prefix_rfl, h⟩)
    ?_ hwithin
  intro s₁ s₂ ih hstep hwithin₂
  have hwithin₁ : within s₁.shared := by
    cases hstep with
    | call => exact hback _ _ hwithin₂
  obtain ⟨log₁, a₁, hlog₁, h₁⟩ := ih hwithin₁
  obtain ⟨log₂, a₂, hlog₂, h₂⟩ := h₁.next hstep hwithin₂
  exact ⟨log₂, a₂, hlog₁.trans hlog₂, h₂⟩

omit [DecidableEq ι] in
/-- Before any query, no step has been taken. -/
theorem Linearized.none {shared : S} (hshared : rel a₀ shared)
    (hstart : ∀ i, (∃ o, start i = .ret o) ∨ TakesEffect exec within rel (step i) (start i)) :
    Linearized exec within rel step a₀ start (Pool.start shared start) [] a₀ := by
  refine ⟨.nil, hshared, List.nodup_nil, fun i o hmem => absurd hmem List.not_mem_nil,
    fun i _ => (hstart i).imp ?_ id⟩
  rintro ⟨o, ho⟩
  exact ⟨o, ho, ho⟩

end Pool

end Lib
