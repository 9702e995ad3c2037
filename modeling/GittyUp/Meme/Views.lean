import GittyUp.Lib.Increment
import GittyUp.Meme.Interleaving
import GittyUp.Meme.Refinement

/-!
# Concurrent views of one meme

A GET reads the number of views of a meme with one statement and writes it back,
plus one, with another: it increments a register. `no_view_lost_iff` says which
orders of the statements count every view, and `view_lost_at_once` shows one
that does not.
-/

namespace GittyUp

open Lib

/-! ## A meme in the table -/

section Table

variable {Db : Type} {L : Sqlite Db}

/-- The table holds one record with this id, that of this meme. -/
def HasMeme (L : Sqlite Db) (db : Db) (id : Bytes) (meme : Meme) : Prop :=
  ∃ records, Holds L db records ∧ (records.filter fun r => r.id = id) = {meme.record id}

/-- The table holds a meme with this id and this number of views. -/
def HasViews (L : Sqlite Db) (db : Db) (id : Bytes) (views : Nat) : Prop :=
  ∃ texts, HasMeme L db id ⟨texts, views⟩

theorem Meme.record_injective (id : Bytes) :
    Function.Injective fun meme : Meme => meme.record id := by
  rintro ⟨texts, views⟩ ⟨texts', views'⟩ h
  obtain ⟨-, htexts, hviews⟩ := MemeRecord.mk.inj h
  exact Meme.ext htexts (decimal_injective hviews)

/-- The meme with an id is unique. -/
theorem HasMeme.unique {db : Db} {id : Bytes} {meme meme' : Meme} (h : HasMeme L db id meme)
    (h' : HasMeme L db id meme') : meme = meme' := by
  obtain ⟨records, hholds, hmeme⟩ := h
  obtain ⟨records', hholds', hmeme'⟩ := h'
  obtain rfl := Multiset.map_injective MemeRecord.row_injective (hholds.symm.trans hholds')
  exact Meme.record_injective id (Multiset.singleton_inj.mp (hmeme.symm.trans hmeme'))

theorem HasViews.unique {db : Db} {id : Bytes} {n n' : Nat} (h : HasViews L db id n)
    (h' : HasViews L db id n') : n = n' := by
  obtain ⟨texts, h⟩ := h
  obtain ⟨texts', h'⟩ := h'
  exact congrArg Meme.views (h.unique h')

end Table

/-! ## GETs increment a register -/

section Views

variable {ι : Type} [DecidableEq ι] {Db : Type} {L : Sqlite Db}

/-- What is left to do for a GET of a meme with these texts. -/
def phaseProgram (id : Bytes) (texts : MemeTexts) : IncrementPhase → MemeProg Response
  | .idle => viewProgram id
  | .holding n => .call (MemeStatement.setViews id (decimal (n + 1))).statement fun _ =>
      .ret (memeResponse texts.cStr)
  | .done => .ret (memeResponse texts.cStr)

/-- The views in the table are the register, and the threads are in its phases. -/
structure CountsViews (L : Sqlite Db) (id : Bytes) (texts : MemeTexts)
    (s : Pool Abort SqlStatement SqlReply Response Db ι) (t : Increment ι) : Prop where
  stored : HasMeme L s.shared id ⟨texts, t.value⟩
  threads : ∀ i, s.threads i = phaseProgram id texts (t.phase i)

/-- The status of the response that a thread has given. -/
def answeredStatus : MemeProg Response → Option Nat
  | .ret response => some response.statusCode
  | _ => none

/-- Every request has been answered 200. -/
def AllAnswered (s : Pool Abort SqlStatement SqlReply Response Db ι) : Prop :=
  ∀ i, answeredStatus (s.threads i) = some 200

instance [Fintype ι] (s : Pool Abort SqlStatement SqlReply Response Db ι) :
    Decidable (AllAnswered s) :=
  inferInstanceAs (Decidable (∀ i, answeredStatus (s.threads i) = some 200))

omit [DecidableEq ι] in
/-- Threads that have all answered are done. -/
theorem CountsViews.done {id : Bytes} {texts : MemeTexts}
    {s : Pool Abort SqlStatement SqlReply Response Db ι} {t : Increment ι}
    (h : CountsViews L id texts s t) (hdone : AllAnswered s) : ∀ i, t.phase i = .done := by
  intro i
  have hi := hdone i
  rw [h.threads i] at hi
  cases hphase : t.phase i with
  | done => rfl
  | idle =>
    rw [hphase] at hi
    contradiction
  | holding n =>
    rw [hphase] at hi
    contradiction

/-- A thread goes on as its next phase says. -/
theorem update_phaseProgram {id : Bytes} {texts : MemeTexts} {threads : ι → MemeProg Response}
    {t : Increment ι} (h : ∀ i, threads i = phaseProgram id texts (t.phase i)) (v : Nat) (i : ι)
    {p : IncrementPhase} {k : MemeProg Response} (hk : k = phaseProgram id texts p) (j : ι) :
    Function.update threads i k j = phaseProgram id texts ((t.enter v i p).phase j) := by
  by_cases hj : j = i
  · rw [hj, Function.update_self, Increment.enter_phase_self, hk]
  · rw [Function.update_of_ne hj, Increment.enter_phase_of_ne _ _ _ hj, h j]

variable (hstd : L.Standard memeSchema) (hrel : L.Reliable memeSchema) {id : Bytes}
  (hid : NulFree id)

include hstd hrel hid

/-- The `SELECT` of a GET reads the record of the meme. -/
theorem exec_byId {db : Db} {meme : Meme} (h : HasMeme L db id meme) :
    (L.exec db (MemeStatement.byId id).statement).1.rows = [(meme.record id).row] ∧
      HasMeme L (L.exec db (MemeStatement.byId id).statement).2 id meme := by
  obtain ⟨records, hholds, hmeme⟩ := h
  obtain ⟨-, hreturns, hholds'⟩ := exec_holds hstd hrel hholds (.byId id) trivial
  simp only [MemeStatement.Returns, cStr_of_nulFree hid, hmeme, Multiset.map_singleton,
    Multiset.coe_eq_singleton] at hreturns
  exact ⟨hreturns, records, hholds', hmeme⟩

/-- The `UPDATE` of a GET changes the number of views only. -/
theorem exec_setViews {db : Db} {meme : Meme} (h : HasMeme L db id meme) (n : Nat) :
    HasMeme L (L.exec db (MemeStatement.setViews id (decimal n)).statement).2 id
      { meme with views := n } := by
  obtain ⟨records, hholds, hmeme⟩ := h
  obtain ⟨-, -, hholds'⟩ := exec_holds hstd hrel hholds (.setViews id (decimal n)) trivial
  refine ⟨_, hholds', ?_⟩
  have hids : ∀ r : MemeRecord,
      (if r.id = id then { r with views := decimal n } else r).id = r.id := by
    intro r
    split_ifs <;> rfl
  simp only [MemeStatement.apply, cStr_of_nulFree hid, cStr_of_nulFree (nulFree_decimal _),
    Multiset.filter_map, Function.comp_def, hids, hmeme, Multiset.map_singleton]
  rw [if_pos (show (meme.record id).id = id from rfl)]
  rfl

/-- **A statement of a GET is a step of the register.** -/
theorem CountsViews.step {texts : MemeTexts} {s s' : Pool Abort SqlStatement SqlReply Response Db ι}
    {t : Increment ι} (h : CountsViews L id texts s t)
    (hbound : ∀ i, t.phase i ≠ .done → t.value + 1 < 2 ^ 31) (hstep : Pool.Step L.exec s s') :
    ∃ e t', s'.trace = s.trace ++ [e] ∧ t.step e.thread = some t' ∧
      CountsViews L id texts s' t' := by
  cases hstep with
  | @call i q k hi =>
    have hthread := (h.threads i).symm.trans hi
    refine ⟨⟨i, q, (L.exec s.shared q).1⟩, ?_⟩
    cases hphase : t.phase i with
    | idle =>
      rw [hphase] at hthread
      obtain ⟨rfl, rfl⟩ := Prog.call.inj hthread
      obtain ⟨hrows, hstored⟩ := exec_byId hstd hrel hid h.stored
      refine ⟨t.enter t.value i (.holding t.value), rfl, by rw [Increment.step, hphase],
        hstored, ?_⟩
      refine update_phaseProgram h.threads _ i ?_
      dsimp only
      rw [hrows, List.map_singleton, row_map_cStr hid,
        countView_record (hbound i (by simp [hphase]))]
      rfl
    | holding n =>
      rw [hphase] at hthread
      obtain ⟨rfl, rfl⟩ := Prog.call.inj hthread
      refine ⟨t.enter (n + 1) i .done, rfl, by rw [Increment.step, hphase], ?_, ?_⟩
      · exact exec_setViews hstd hrel hid h.stored (n + 1)
      · exact update_phaseProgram h.threads _ i rfl
    | done =>
      rw [hphase] at hthread
      contradiction

variable [Fintype ι] {meme : Meme} {db : Db} {arrivals : ι → Arrival}

/-- **A run of GETs is a run of the register.** -/
theorem countsViews_of_reachable (hmeme : HasMeme L db id meme)
    (hviews : ∀ i, (arrivals i).command = .view id)
    (hbound : meme.views + Fintype.card ι < 2 ^ 31)
    {s : Pool Abort SqlStatement SqlReply Response Db ι}
    (h : Reachable (Pool.Step L.exec) (serving db arrivals) s) :
    ∃ t, (Increment.start ι meme.views).run (s.trace.map Event.thread) = some t ∧
      Increment.Sound meme.views t ∧ CountsViews L id meme.texts s t := by
  refine h.invariant (P := fun s => ∃ t, (Increment.start ι meme.views).run
      (s.trace.map Event.thread) = some t ∧ Increment.Sound meme.views t ∧
      CountsViews L id meme.texts s t) ⟨.start ι meme.views, rfl, .start, hmeme, fun i => ?_⟩ ?_
  · rcases handleRequest_command (arrivals i).uuid (arrivals i).request with hp | ⟨hother, -⟩
    · change (arrivals i).command.program = _ at hp
      rw [hviews i] at hp
      exact (Option.some.inj hp).symm
    · change (arrivals i).command = .other at hother
      rw [hviews i] at hother
      contradiction
  · rintro s s' ⟨t, hrun, hsound, hcounts⟩ hstep
    have hbound' : ∀ i, t.phase i ≠ .done → t.value + 1 < 2 ^ 31 := by
      intro i hi
      have := hsound.value_lt hi
      omega
    obtain ⟨e, t', htrace, ht', hcounts'⟩ := hcounts.step hstd hrel hid hbound' hstep
    refine ⟨t', ?_, hsound.step ht', hcounts'⟩
    rw [htrace, List.map_append, List.map_singleton, Increment.run_concat, hrun]
    exact ht'

/-- **Exactly the views whose `UPDATE` directly follows their `SELECT` are all
counted.** -/
theorem no_view_lost_iff (hmeme : HasMeme L db id meme)
    (hviews : ∀ i, (arrivals i).command = .view id)
    (hbound : meme.views + Fintype.card ι < 2 ^ 31)
    {s : Pool Abort SqlStatement SqlReply Response Db ι}
    (h : Reachable (Pool.Step L.exec) (serving db arrivals) s) (hdone : AllAnswered s) :
    HasViews L s.shared id (meme.views + Fintype.card ι) ↔
      Paired (s.trace.map Event.thread) := by
  obtain ⟨t, hrun, -, hcounts⟩ := countsViews_of_reachable hstd hrel hid hmeme hviews hbound h
  rw [← Increment.value_eq_iff_paired hrun (hcounts.done hdone)]
  constructor
  · exact fun hlast => HasViews.unique ⟨_, hcounts.stored⟩ hlast
  · exact fun hvalue => ⟨_, hvalue ▸ hcounts.stored⟩

end Views

/-! ## Two views at once -/

theorem hasMeme_row (id : Bytes) (meme : Meme) :
    HasMeme (reference memeSchema) [(meme.record id).row] id meme := by
  refine ⟨{meme.record id}, rfl, ?_⟩
  rw [Multiset.filter_singleton, if_pos (show (meme.record id).id = id from rfl)]

/-- A meme that two GETs ask for. -/
def viewedId : Bytes := "00000000-0000-4000-8000-000000000001"

/-- What this meme is. -/
def viewedMeme (views : Nat) : Meme := ⟨⟨"a.jpg", "b", "c"⟩, views⟩

/-- The two GETs. -/
def twoViews : Fin 2 → Arrival := fun _ =>
  ⟨"00000000-0000-4000-8000-000000000002",
    ⟨"", "GET", lit "/memes/" ++ viewedId, ∅, "", ∅, true⟩⟩

/-- One GET after the other: both views are counted. -/
theorem no_view_lost_in_turn : ∃ s, (serving [((viewedMeme 0).record viewedId).row] twoViews).play
      (reference memeSchema).exec [0, 0, 1, 1] = some s ∧
    (HasViews (reference memeSchema) s.shared viewedId ((viewedMeme 0).views + 2) ↔
      Paired (s.trace.map Event.thread)) := by
  have hplay : ((serving [((viewedMeme 0).record viewedId).row] twoViews).play
      (reference memeSchema).exec [0, 0, 1, 1]).any fun s => AllAnswered s := by
    decide +kernel
  obtain ⟨s, hs, hdone⟩ := (Option.any_eq_true _ _).mp hplay
  exact ⟨s, hs, no_view_lost_iff (reference_standard memeSchema) (reference_reliable memeSchema)
    (by decide) (hasMeme_row viewedId (viewedMeme 0)) (by decide +kernel) (by decide)
    (Pool.reachable_of_play hs) (of_decide_eq_true hdone)⟩

/-- Both GETs read the number of views before either writes it: one view is lost. -/
theorem view_lost_at_once : ¬ ∀ s,
    Reachable (Pool.Step (reference memeSchema).exec)
      (serving [((viewedMeme 0).record viewedId).row] twoViews) s →
    AllAnswered s →
      HasViews (reference memeSchema) s.shared viewedId ((viewedMeme 0).views + 2) := by
  intro hcounted
  have hplay : ((serving [((viewedMeme 0).record viewedId).row] twoViews).play
      (reference memeSchema).exec [0, 1, 0, 1]).any fun s =>
        AllAnswered s ∧ s.shared = [((viewedMeme 1).record viewedId).row] := by
    decide +kernel
  obtain ⟨s, hs, hend⟩ := (Option.any_eq_true _ _).mp hplay
  obtain ⟨hdone, hshared⟩ := of_decide_eq_true hend
  have htwo := hcounted s (Pool.reachable_of_play hs) hdone
  have hone : HasViews (reference memeSchema) s.shared viewedId 1 := by
    rw [hshared]
    exact ⟨_, hasMeme_row viewedId (viewedMeme 1)⟩
  exact absurd (hone.unique htwo) (by decide)

end GittyUp
