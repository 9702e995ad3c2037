import GittyUp.Lib.Prog
import GittyUp.Lib.Refines

/-!
# Total correctness of programs

A program is specified by what holds before it and by what holds of its result and
the state behind it. Programs that are specified so, one for each input, refine an
abstract machine (`refines_iff_hoare`).
-/

namespace Lib

variable {ε Q R S A I O α β : Type}

/-- Run from any state with `P`, the program returns, as `post` says. -/
def Hoare (exec : S → Q → R × S) (P : S → Prop) (p : Prog ε Q R α) (post : α → S → Prop) :
    Prop :=
  ∀ s, P s → ∃ a s', p.run exec s = (.ok a, s') ∧ post a s'

namespace Hoare

variable {exec : S → Q → R × S} {P : S → Prop} {post : α → S → Prop}

theorem ret {a : α} (h : ∀ s, P s → post a s) : Hoare exec P (.ret a : Prog ε Q R α) post :=
  fun s hs => ⟨a, s, rfl, h s hs⟩

theorem bind {mid : α → S → Prop} {post : β → S → Prop} {p : Prog ε Q R α}
    {f : α → Prog ε Q R β} (hp : Hoare exec P p mid) (hf : ∀ a, Hoare exec (mid a) (f a) post) :
    Hoare exec P (p >>= f) post := by
  intro s hs
  obtain ⟨a, s', hrun, hmid⟩ := hp s hs
  obtain ⟨b, s'', hrun', hpost⟩ := hf a s' hmid
  refine ⟨b, s'', ?_, hpost⟩
  clear hp hf hs hmid hpost
  induction p generalizing s with
  | ret a' =>
    obtain ⟨hok, rfl⟩ := Prod.mk.inj hrun
    obtain rfl := Except.ok.inj hok
    exact hrun'
  | abort e => cases hrun
  | call q k ih => exact ih _ _ hrun

theorem mono {P' : S → Prop} {post' : α → S → Prop} {p : Prog ε Q R α} (h : Hoare exec P p post)
    (hP : ∀ s, P' s → P s) (hpost : ∀ a s, post a s → post' a s) : Hoare exec P' p post' := by
  intro s hs
  obtain ⟨a, s', hrun, ha⟩ := h s (hP s hs)
  exact ⟨a, s', hrun, hpost a s' ha⟩

end Hoare

/-- **Refinement by specification**: the programs of the inputs are to do what the
abstract machine may, and to take no more than they cost. -/
theorem refines_iff_hoare {exec : S → Q → R × S} {program : I → Prog ε Q R O} {cost : I → Nat}
    {ok : I → Prop} {rel : Nat → S → A → Prop} {step : A → I → O → A → Prop} :
    Refines (fun s i => (program i).run exec s) cost ok rel step ↔
      ∀ n a i, ok i → Hoare exec (fun s => rel (n + cost i) s a) (program i)
        fun o s' => ∃ a', step a i o a' ∧ rel n s' a' := by
  constructor
  · intro h n a i hi s hs
    obtain ⟨o, s', a', hrun, hstep, hrel⟩ := h n s a i hi hs
    exact ⟨o, s', hrun, a', hstep, hrel⟩
  · intro h n s a i hi hs
    obtain ⟨o, s', hrun, a', hstep, hrel⟩ := h n a i hi s hs
    exact ⟨o, s', a', hrun, hstep, hrel⟩

end Lib
