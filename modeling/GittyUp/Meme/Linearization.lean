import GittyUp.Lib.FirstQuery
import GittyUp.Meme.Listing

/-!
# Concurrent requests as a sequence

Requests that are served at the same time are as good as served one after another,
in the order of their first statements, but for the numbers of views: a GET reads
the number and writes it back in two statements, and may undo what other GETs have
counted. `memes_linearizable`: on an engine that completes every statement, every
response is that of the sequence, and the table has the memes of the sequence, with no
more views than the sequence counts.
-/

namespace GittyUp

open Lib

/-! ## Lost views -/

/-- The memes of the map, some of the views lost. -/
def MemeMap.Undercounts (actual m : MemeMap) : Prop :=
  ∀ id, Option.Rel (fun a b : Meme => a.texts = b.texts ∧ a.views ≤ b.views) (actual id) (m id)

namespace MemeMap.Undercounts

variable {actual m : MemeMap}

theorem none_iff (h : actual.Undercounts m) (id : Bytes) : actual id = none ↔ m id = none := by
  have hid := h id
  cases hactual : actual id with
  | none =>
    rw [hactual] at hid
    cases hm : m id with
    | none => rfl
    | some meme =>
      rw [hm] at hid
      cases hid
  | some meme =>
    rw [hactual] at hid
    cases hm : m id with
    | none =>
      rw [hm] at hid
      cases hid
    | some meme => simp

theorem of_some (h : actual.Undercounts m) {id : Bytes} {a : Meme} (ha : actual id = some a) :
    ∃ meme, m id = some meme ∧ a.texts = meme.texts ∧ a.views ≤ meme.views := by
  have hid := h id
  rw [ha] at hid
  cases hm : m id with
  | none =>
    rw [hm] at hid
    cases hid
  | some meme =>
    rw [hm] at hid
    cases hid with
    | some hrel => exact ⟨meme, rfl, hrel⟩

/-- One id is changed on both sides. -/
theorem update (h : actual.Undercounts m) {id : Bytes} {a b : Option Meme}
    (hab : Option.Rel (fun a b : Meme => a.texts = b.texts ∧ a.views ≤ b.views) a b) :
    MemeMap.Undercounts (Function.update actual id a) (Function.update m id b) := by
  intro id'
  by_cases hid : id' = id
  · subst hid
    rwa [Function.update_self, Function.update_self]
  · rw [Function.update_of_ne hid, Function.update_of_ne hid]
    exact h id'

/-- The meme of an id, if present, is changed on both sides. -/
theorem map (h : actual.Undercounts m) (id : Bytes) {f g : Meme → Meme}
    (hfg : ∀ a b, actual id = some a → m id = some b → a.texts = b.texts → a.views ≤ b.views →
      (f a).texts = (g b).texts ∧ (f a).views ≤ (g b).views) :
    MemeMap.Undercounts (Function.update actual id ((actual id).map f))
      (Function.update m id ((m id).map g)) := by
  refine h.update ?_
  have hid := h id
  cases ha : actual id with
  | none =>
    rw [(h.none_iff id).mp ha]
    exact .none
  | some a =>
    obtain ⟨b, hb, htexts, hviews⟩ := h.of_some ha
    rw [hb]
    exact .some (hfg a b ha hb htexts hviews)

/-- Counting a view of the map leaves out one of the table. -/
theorem view (h : actual.Undercounts m) (id : Bytes) :
    actual.Undercounts (m.apply (.view id)) := by
  have hmap := h.map id (f := fun meme => meme)
    (g := fun meme => { meme with views := meme.views + 1 }) fun a b _ _ htexts hviews =>
      ⟨htexts, Nat.le_succ_of_le hviews⟩
  rwa [Option.map_id', Function.update_eq_self] at hmap

end MemeMap.Undercounts

/-- The records are memes of the map, some of the views lost. -/
structure Shows (m : MemeMap) (records : Multiset MemeRecord) : Prop where
  nodup : (records.map MemeRecord.id).Nodup
  sound : ∀ r ∈ records, ∃ meme, m r.id = some meme ∧ r.texts = meme.texts ∧
    ∃ n ≤ meme.views, r.views = decimal n

/-- All memes of the map are among the records. -/
def ShowsAll (m : MemeMap) (records : Multiset MemeRecord) : Prop :=
  Shows m records ∧ ∀ id, m id ≠ none → ∃ r ∈ records, r.id = id

theorem Stores.showsAll {records : Multiset MemeRecord} {actual m : MemeMap}
    (h : Stores records actual) (hm : actual.Undercounts m) : ShowsAll m records := by
  refine ⟨⟨h.nodup, fun r hr => ?_⟩, fun id hid => ?_⟩
  · obtain ⟨a, ha, heq⟩ := (h.mem r).mp hr
    obtain ⟨meme, hmeme, htexts, hviews⟩ := hm.of_some ha
    refine ⟨meme, hmeme, ?_, a.views, hviews, ?_⟩
    · rw [heq]
      exact htexts
    · rw [heq]
      rfl
  · obtain ⟨a, ha⟩ := Option.ne_none_iff_exists'.mp (mt (hm.none_iff id).mp hid)
    exact ⟨a.record id, (h.mem _).mpr ⟨a, ha, rfl⟩, rfl⟩

theorem Shows.mono {m : MemeMap} {records records' : Multiset MemeRecord} (h : Shows m records)
    (hle : records' ≤ records) : Shows m records' :=
  ⟨Multiset.nodup_of_le (Multiset.map_le_map hle) h.nodup,
    fun r hr => h.sound r (Multiset.mem_of_le hle hr)⟩

/-! ## The sequence -/

/-- A response that the map may give: to a request for one meme the one of the map,
and to one for a list some of its memes, all of them if it is no search. -/
inductive AnswersAs (m : MemeMap) (r : Arrival) : Response → Prop
  | meme {response : Response} : m.answer r.command = some response → AnswersAs m r response
  | list {rs : List MemeRecord} : r.command = .other → Shows m ↑rs →
      (r.request.method = "GET" → getTarget (checkUri r.request.uri) = .list → ShowsAll m ↑rs) →
      AnswersAs m r (typedResponse 200 (listBody rs) "application/json")

/-- Requests as the handler may meet them: no NUL in a URI, UUIDs that are never
drawn twice, and no more GETs than an `int` can count. -/
structure ValidArrivals {ι : Type} (arrivals : ι → Arrival) : Prop where
  uris : ∀ i, NulFree (arrivals i).request.uri
  uuids : ∀ i, IsUuid (arrivals i).uuid
  fresh : ∀ i j id, (arrivals i).command.drawn = some id → (arrivals j).command.drawn = some id →
    i = j
  gets : (gets arrivals).encard < ((2 ^ 31 - 1 : Nat) : ℕ∞)

section Sequence

variable {ι : Type} {arrivals : ι → Arrival} {order : List ι} {i j : ι}

theorem mem_drawnIds_map {id : Bytes} : id ∈ drawnIds (order.map arrivals) ↔
    ∃ i ∈ order, (arrivals i).command.drawn = some id := by
  rw [drawnIds, List.filterMap_map, List.mem_filterMap]
  rfl

/-- A request is ready where it is not in the sequence yet. -/
theorem ValidArrivals.ready (h : ValidArrivals arrivals) (hi : i ∉ order) :
    (arrivals i).command.Ready (applyAll (order.map arrivals)) := by
  refine Arrival.ready (h.uuids i).nulFree (h.uris i) fun id hdrawn => ?_
  refine Option.eq_none_iff_forall_ne_some.mpr fun meme hsome => ?_
  obtain ⟨j, hj, hdrawn'⟩ := mem_drawnIds_map.mp (mem_drawnIds_of_applyAll hsome)
  exact hi (h.fresh i j id hdrawn hdrawn' ▸ hj)

theorem applyAll_map_concat (order : List ι) (i : ι) :
    applyAll ((order ++ [i]).map arrivals) =
      (applyAll (order.map arrivals)).apply (arrivals i).command := by
  rw [List.map_append]
  exact applyAll_concat _ _

/-- The memes of the sequence can be read back. -/
theorem ValidArrivals.proper (h : ValidArrivals arrivals) (hnodup : order.Nodup) {id : Bytes}
    {meme : Meme} (hmeme : applyAll (order.map arrivals) id = some meme) :
    NulFree id ∧ meme.texts.Proper := by
  have hsane : ∃ bound, (applyAll (order.map arrivals)).Sane bound := by
    clear hmeme
    induction order using List.reverseRecOn with
    | nil => exact ⟨0, fun _ _ h => by contradiction⟩
    | append_singleton order i ih =>
      obtain ⟨horder, -, hdisjoint⟩ := List.nodup_append.mp hnodup
      obtain ⟨bound, hbound⟩ := ih horder
      rw [applyAll_map_concat]
      refine ⟨bound + 1, hbound.apply (h.ready fun hi => ?_)⟩
      exact hdisjoint i hi i (List.mem_singleton_self i) rfl
  obtain ⟨bound, hbound⟩ := hsane
  exact ⟨(hbound id meme hmeme).1, (hbound id meme hmeme).2.1⟩

/-- One command counts at most one view, and only the command of a GET. -/
theorem views_apply_le {m : MemeMap} {n : Nat} (h : ∀ id meme, m id = some meme → meme.views ≤ n)
    (r : Arrival) {id : Bytes} {meme : Meme} (hmeme : m.apply r.command id = some meme) :
    meme.views ≤ n + if r.request.method = "GET" then 1 else 0 := by
  have hcases : CommandOf r.uuid r.request r.command := command_cases _ _
  have keep {id : Bytes} {meme : Meme} (hold : m id = some meme) :
      meme.views ≤ n + if r.request.method = "GET" then 1 else 0 :=
    Nat.le_add_right_of_le (h id meme hold)
  generalize r.command = asked at hmeme hcases
  cases hcases with
  | add =>
    rw [MemeMap.apply, Function.update_apply] at hmeme
    split_ifs at hmeme with hid
    · obtain rfl := Option.some.inj hmeme
      exact Nat.zero_le _
    · exact keep hmeme
  | replace =>
    rw [MemeMap.apply, Function.update_apply] at hmeme
    split_ifs at hmeme with hid
    · obtain ⟨old, hold, rfl⟩ := Option.map_eq_some_iff.mp hmeme
      exact @keep _ old hold
    · exact keep hmeme
  | remove =>
    rw [MemeMap.apply, Function.update_apply] at hmeme
    split_ifs at hmeme with hid
    exact keep hmeme
  | view hget =>
    rw [MemeMap.apply, Function.update_apply] at hmeme
    split_ifs at hmeme with hid
    · obtain ⟨old, hold, rfl⟩ := Option.map_eq_some_iff.mp hmeme
      rw [if_pos hget]
      exact Nat.succ_le_succ (h _ old hold)
    · exact keep hmeme
  | other => exact keep hmeme

/-- The sequence counts no more views than it has GETs. -/
theorem views_le_countP {id : Bytes} {meme : Meme}
    (hmeme : applyAll (order.map arrivals) id = some meme) :
    meme.views ≤ order.countP fun i => (arrivals i).request.method = "GET" := by
  induction order using List.reverseRecOn generalizing id meme with
  | nil => contradiction
  | append_singleton order i ih =>
    rw [applyAll_map_concat] at hmeme
    rw [List.countP_append, List.countP_singleton]
    simpa using views_apply_le (fun id meme => ih) (arrivals i) hmeme

/-- A view more does not overflow. -/
theorem ValidArrivals.views_lt (h : ValidArrivals arrivals) (hnodup : order.Nodup) {id : Bytes}
    {meme : Meme} (hmeme : applyAll (order.map arrivals) id = some meme) :
    meme.views + 1 < 2 ^ 31 := by
  classical
  have hlimit : (GittyUp.gets arrivals).encard ≤ ((2 ^ 31 - 2 : Nat) : ℕ∞) :=
    ENat.lt_natCast_add_one_iff.mp h.gets
  have hgets : ∀ i ∈ order.filter fun i => (arrivals i).request.method = "GET",
      i ∈ GittyUp.gets arrivals := by
    intro i hi
    show (arrivals i).request.method = lit "GET"
    simpa using (List.mem_filter.mp hi).2
  have hcard := card_le_of_gets (g := (order.filter fun i =>
    (arrivals i).request.method = "GET").toFinset) hlimit fun i hi =>
      hgets i (List.mem_toFinset.mp (Finset.mem_coe.mp hi))
  rw [List.toFinset_card_of_nodup (hnodup.filter _), ← List.countP_eq_length_filter,
    Nat.cast_le] at hcard
  have hviews := views_le_countP hmeme
  omega

end Sequence

/-! ## One statement -/

section Statements

variable {ι : Type} {Db : Type} {L : Sqlite Db} {arrivals : ι → Arrival} {order : List ι}
  {db : Db} {i j : ι}

/-- The table, when the requests of `order` have begun. -/
structure TableAt (L : Sqlite Db) (arrivals : ι → Arrival) (order : List ι) (db : Db) : Prop where
  nodup : order.Nodup
  stores : ∃ records actual, Holds L db records ∧ Stores records actual ∧
    actual.Undercounts (applyAll (order.map arrivals))

/-- What a request of `order` has left to do: it has the response of the sequence,
and may have to write a number of views that is not too large. -/
inductive RequestAt (arrivals : ι → Arrival) (order : List ι) (i : ι) : MemeProg Response → Prop
  | answered {before after : List ι} {response : Response} : order = before ++ i :: after →
      AnswersAs (applyAll (before.map arrivals)) (arrivals i) response →
      RequestAt arrivals order i (.ret response)
  | counting {before after : List ι} {response : Response} {id : Bytes} {n : Nat} :
      order = before ++ i :: after →
      AnswersAs (applyAll (before.map arrivals)) (arrivals i) response → NulFree id →
      id ∈ drawnIds (order.map arrivals) →
      (∀ meme, applyAll (order.map arrivals) id = some meme → n ≤ meme.views) →
      RequestAt arrivals order i
        (.call (MemeStatement.setViews id (decimal n)).statement fun _ => .ret response)

/-- The number of views of a meme only goes up, as long as it is not drawn again. -/
theorem views_le_apply {m : MemeMap} {c : MemeCommand} {id : Bytes} {n : Nat}
    (h : ∀ meme, m id = some meme → n ≤ meme.views) (hdrawn : c.drawn ≠ some id) {meme : Meme}
    (hmeme : m.apply c id = some meme) : n ≤ meme.views := by
  cases c with
  | add id' texts =>
    have hid : id ≠ id' := fun hid => hdrawn (congrArg some hid.symm)
    rw [MemeMap.apply, Function.update_of_ne hid] at hmeme
    exact h meme hmeme
  | replace id' texts =>
    rw [MemeMap.apply, Function.update_apply] at hmeme
    split_ifs at hmeme with hid
    · subst hid
      obtain ⟨old, hold, rfl⟩ := Option.map_eq_some_iff.mp hmeme
      exact h old hold
    · exact h meme hmeme
  | view id' =>
    rw [MemeMap.apply, Function.update_apply] at hmeme
    split_ifs at hmeme with hid
    · subst hid
      obtain ⟨old, hold, rfl⟩ := Option.map_eq_some_iff.mp hmeme
      exact Nat.le_succ_of_le (h old hold)
    · exact h meme hmeme
  | remove id' =>
    rw [MemeMap.apply, Function.update_apply] at hmeme
    split_ifs at hmeme with hid
    exact h meme hmeme
  | other => exact h meme hmeme

/-- Requests that begin later do not matter. -/
theorem RequestAt.concat (hvalid : ValidArrivals arrivals) (hj : j ∉ order)
    {p : MemeProg Response} (h : RequestAt arrivals order i p) :
    RequestAt arrivals (order ++ [j]) i p := by
  cases h with
  | @answered before after response horder hanswer =>
    have horder' : order ++ [j] = before ++ i :: (after ++ [j]) := by rw [horder]; simp
    exact .answered horder' hanswer
  | @counting before after response id n horder hanswer hid hdrawn hviews =>
    have horder' : order ++ [j] = before ++ i :: (after ++ [j]) := by rw [horder]; simp
    refine .counting horder' hanswer hid ?_ ?_
    · rw [mem_drawnIds_map] at hdrawn ⊢
      obtain ⟨k, hk, hdrawn⟩ := hdrawn
      exact ⟨k, List.mem_append_left _ hk, hdrawn⟩
    · intro meme hmeme
      rw [applyAll_map_concat] at hmeme
      refine views_le_apply hviews (fun hagain => ?_) hmeme
      obtain ⟨k, hk, hdrawn⟩ := mem_drawnIds_map.mp hdrawn
      exact hj (hvalid.fresh k j id hdrawn hagain ▸ hk)

variable (hvalid : ValidArrivals arrivals) (hstd : L.Standard memeSchema)
  (hrel : L.Reliable memeSchema)

include hstd hrel in
/-- Writing a number of views that is not too large loses views at most. -/
theorem RequestAt.later (h : TableAt L arrivals order db) {q : SqlStatement}
    {k : SqlReply → MemeProg Response} (hp : RequestAt arrivals order i (.call q k)) :
    TableAt L arrivals order (L.exec db q).2 ∧ RequestAt arrivals order i (k (L.exec db q).1) := by
  cases hp with
  | @counting before after response id n horder hanswer hid hdrawn hviews =>
    refine ⟨⟨h.nodup, ?_⟩, .answered horder hanswer⟩
    obtain ⟨records, actual, hholds, hstores, hunder⟩ := h.stores
    obtain ⟨-, -, hholds'⟩ := exec_holds hstd hrel hholds (.setViews id (decimal n)) trivial
    have hmap := hunder.map id (f := fun meme => { meme with views := n }) (g := fun meme => meme)
      fun a b _ hb htexts _ => ⟨htexts, hviews b hb⟩
    rw [Option.map_id', Function.update_eq_self] at hmap
    refine ⟨_, _, hholds', ?_, hmap⟩
    simp only [MemeStatement.apply, cStr_of_nulFree hid, cStr_of_nulFree (nulFree_decimal _)]
    exact hstores.update fun meme _ => rfl

/-- The table after one more request has begun. -/
theorem TableAt.concat (h : TableAt L arrivals order db) (hi : i ∉ order) {db' : Db}
    {records : Multiset MemeRecord} {actual : MemeMap} (hholds : Holds L db' records)
    (hstores : Stores records actual)
    (hunder : actual.Undercounts ((applyAll (order.map arrivals)).apply (arrivals i).command)) :
    TableAt L arrivals (order ++ [i]) db' := by
  refine ⟨?_, records, actual, hholds, hstores, applyAll_map_concat order i ▸ hunder⟩
  refine List.nodup_append.mpr ⟨h.nodup, List.nodup_singleton i, ?_⟩
  rintro j hj _ hmem rfl
  exact hi (List.mem_singleton.mp hmem ▸ hj)

/-- The request that has begun last has the response of the map so far. -/
theorem RequestAt.last {response : Response}
    (h : (applyAll (order.map arrivals)).answer (arrivals i).command = some response) :
    RequestAt arrivals (order ++ [i]) i (.ret response) :=
  .answered rfl (.meme h)

include hvalid hstd hrel

/-- `INSERT` adds a meme with an id that is not in use. -/
theorem first_add (h : TableAt L arrivals order db) (hi : i ∉ order) {id : Bytes}
    {texts : MemeTexts} (hc : (arrivals i).command = .add id texts) :
    TableAt L arrivals (order ++ [i]) (L.exec db (MemeStatement.insert id texts).statement).2 ∧
      RequestAt arrivals (order ++ [i]) i (.ret (createReply id
        (L.exec db (MemeStatement.insert id texts).statement).1.done)) := by
  have hready := hvalid.ready hi
  rw [hc] at hready
  obtain ⟨hid, htexts, hfresh⟩ := hready
  obtain ⟨records, actual, hholds, hstores, hunder⟩ := h.stores
  have hnone := (hunder.none_iff id).mpr hfresh
  have henabled : (MemeStatement.insert id texts).Enabled records := by
    intro r hr hrid
    obtain ⟨_, hsome, -⟩ := (hstores.mem r).mp hr
    rw [hrid, cStr_of_nulFree hid, hnone] at hsome
    contradiction
  obtain ⟨hdone, -, hholds'⟩ := exec_holds hstd hrel hholds _ henabled
  rw [MemeStatement.apply, cStr_of_nulFree hid, htexts.cStr_eq] at hholds'
  constructor
  · refine h.concat hi hholds' (hstores.insert hnone ⟨texts, 0⟩) ?_
    rw [hc]
    exact hunder.update (.some ⟨rfl, Nat.le_refl 0⟩)
  · rw [hdone]
    exact .last (congrArg _ hc)

/-- The `UPDATE` of a PUT. -/
theorem first_replace (h : TableAt L arrivals order db) (hi : i ∉ order) {id : Bytes}
    {texts : MemeTexts} (hc : (arrivals i).command = .replace id texts) :
    TableAt L arrivals (order ++ [i]) (L.exec db (MemeStatement.replace id texts).statement).2 ∧
      RequestAt arrivals (order ++ [i]) i (.ret (updateReply id
        (L.exec db (MemeStatement.replace id texts).statement).1.done)) := by
  have hready := hvalid.ready hi
  rw [hc] at hready
  obtain ⟨hid, htexts⟩ := hready
  obtain ⟨records, actual, hholds, hstores, hunder⟩ := h.stores
  obtain ⟨hdone, -, hholds'⟩ := exec_holds hstd hrel hholds (.replace id texts) trivial
  simp only [MemeStatement.apply, cStr_of_nulFree hid, htexts.cStr_eq] at hholds'
  constructor
  · refine h.concat hi hholds' (hstores.update (g := fun meme => { meme with texts := texts })
      fun meme _ => rfl) ?_
    rw [hc]
    exact hunder.map id fun a b _ _ _ hviews => ⟨rfl, hviews⟩
  · rw [hdone]
    exact .last (congrArg _ hc)

/-- `DELETE`. -/
theorem first_remove (h : TableAt L arrivals order db) (hi : i ∉ order) {id : Bytes}
    (hc : (arrivals i).command = .remove id) :
    TableAt L arrivals (order ++ [i]) (L.exec db (MemeStatement.remove id).statement).2 ∧
      RequestAt arrivals (order ++ [i]) i (.ret (deleteReply id
        (L.exec db (MemeStatement.remove id).statement).1.done)) := by
  have hid : (arrivals i).command.Ready _ := hvalid.ready hi
  rw [hc] at hid
  obtain ⟨records, actual, hholds, hstores, hunder⟩ := h.stores
  obtain ⟨hdone, -, hholds'⟩ := exec_holds hstd hrel hholds (.remove id) trivial
  simp only [MemeStatement.apply, cStr_of_nulFree (show NulFree id from hid)] at hholds'
  constructor
  · refine h.concat hi hholds' (hstores.remove id) ?_
    rw [hc]
    exact hunder.update .none
  · rw [hdone]
    exact .last (congrArg _ hc)

/-- The `SELECT` of a GET of one meme, which counts the view of the sequence. -/
theorem first_view (h : TableAt L arrivals order db) (hi : i ∉ order) {id : Bytes}
    (hc : (arrivals i).command = .view id) :
    TableAt L arrivals (order ++ [i]) (L.exec db (MemeStatement.byId id).statement).2 ∧
      RequestAt arrivals (order ++ [i]) i (countView
        ((L.exec db (MemeStatement.byId id).statement).1.rows.map fun row => row.map cStr)) := by
  have hready : (arrivals i).command.Ready _ := hvalid.ready hi
  rw [hc] at hready
  have hid : NulFree id := hready
  obtain ⟨records, actual, hholds, hstores, hunder⟩ := h.stores
  obtain ⟨-, hreturns, hholds'⟩ := exec_holds hstd hrel hholds (.byId id) trivial
  rw [MemeStatement.Returns, cStr_of_nulFree hid, hstores.filter_id] at hreturns
  refine ⟨h.concat hi hholds' hstores (hc ▸ hunder.view id), ?_⟩
  cases hactual : actual id with
  | none =>
    rw [hactual, Option.elim_none, Multiset.map_zero, Multiset.coe_eq_zero] at hreturns
    rw [hreturns]
    refine .last ?_
    rw [hc, MemeMap.answer, (hunder.none_iff id).mp hactual]
  | some a =>
    obtain ⟨meme, hmeme, htexts, hviews⟩ := hunder.of_some hactual
    have hproper : a.texts.Proper := htexts ▸ (hvalid.proper h.nodup hmeme).2
    have hlt := hvalid.views_lt h.nodup hmeme
    rw [hactual, Option.elim_some, Multiset.map_singleton, Multiset.coe_eq_singleton] at hreturns
    rw [hreturns, List.map_singleton, row_map_cStr hid, hproper.cStr_eq,
      countView_record (by dsimp only; omega)]
    refine .counting (show order ++ [i] = order ++ i :: [] from rfl) (.meme ?_) hid ?_
      fun meme' hmeme' => ?_
    · rw [hc, MemeMap.answer, hmeme, memeResponse_proper hproper, htexts]
    · obtain ⟨j, hj, hdrawn⟩ := mem_drawnIds_map.mp (mem_drawnIds_of_applyAll hmeme)
      exact mem_drawnIds_map.mpr ⟨j, List.mem_append_left _ hj, hdrawn⟩
    · rw [applyAll_map_concat, hc, MemeMap.apply, Function.update_self, hmeme,
        Option.map_some] at hmeme'
      obtain rfl := Option.some.inj hmeme'
      exact Nat.succ_le_succ hviews

/-- The first statement of a request for one meme. -/
theorem first_of_program (h : TableAt L arrivals order db) (hi : i ∉ order) {q : SqlStatement}
    {k : SqlReply → MemeProg Response}
    (hp : (arrivals i).command.program = some (.call q k)) :
    TableAt L arrivals (order ++ [i]) (L.exec db q).2 ∧
      RequestAt arrivals (order ++ [i]) i (k (L.exec db q).1) := by
  cases hc : (arrivals i).command with
  | add id texts =>
    rw [hc] at hp
    obtain ⟨rfl, rfl⟩ := Prog.call.inj (Option.some.inj hp)
    exact first_add hvalid hstd hrel h hi hc
  | replace id texts =>
    rw [hc] at hp
    obtain ⟨rfl, rfl⟩ := Prog.call.inj (Option.some.inj hp)
    exact first_replace hvalid hstd hrel h hi hc
  | remove id =>
    rw [hc] at hp
    obtain ⟨rfl, rfl⟩ := Prog.call.inj (Option.some.inj hp)
    exact first_remove hvalid hstd hrel h hi hc
  | view id =>
    rw [hc] at hp
    obtain ⟨rfl, rfl⟩ := Prog.call.inj (Option.some.inj hp)
    exact first_view hvalid hstd hrel h hi hc
  | other =>
    rw [hc] at hp
    contradiction

/-- The `SELECT` of a list or a search. -/
theorem first_listing (h : TableAt L arrivals order db) (hi : i ∉ order) {st : MemeStatement}
    (hst : st = .all ∨ ∃ query, st = .search query) (hc : (arrivals i).command = .other)
    (hall : (arrivals i).request.method = "GET" →
      getTarget (checkUri (arrivals i).request.uri) = .list → st = .all) :
    TableAt L arrivals (order ++ [i]) (L.exec db st.statement).2 ∧
      RequestAt arrivals (order ++ [i]) i (memeArray
        ((L.exec db st.statement).1.rows.map fun row => row.map cStr)) := by
  obtain ⟨records, actual, hholds, hstores, hunder⟩ := h.stores
  obtain ⟨rs, hrows, hle, hwhole, hholds'⟩ := rows_of_listing hstd hrel hholds hst
  refine ⟨h.concat hi hholds' hstores (hc ▸ hunder), ?_⟩
  have hshows := hstores.showsAll hunder
  have hreadable : ∀ r ∈ rs, r.Readable := by
    intro r hr
    obtain ⟨meme, hmeme, htexts, n, hn, hviews⟩ := (hshows.1.mono hle).sound r hr
    obtain ⟨hid, hproper⟩ := hvalid.proper h.nodup hmeme
    have hlt := hvalid.views_lt h.nodup hmeme
    exact ⟨hid, htexts ▸ hproper, hviews ▸ nulFree_decimal n, n, hviews ▸ stoi_decimal (by omega)⟩
  have hcStr : (rs.map MemeRecord.row).map (fun row => row.map cStr) = rs.map MemeRecord.row := by
    rw [List.map_map]
    exact List.map_congr_left fun r hr => (hreadable r hr).row_map_cStr
  obtain ⟨sorted, hperm, harray⟩ := memeArray_rows hreadable
  have hsorted : (sorted : Multiset MemeRecord) = rs := Multiset.coe_eq_coe.mpr hperm
  rw [hrows, hcStr, harray]
  refine .answered rfl (.list hc (hsorted ▸ hshows.1.mono hle) fun hget htarget => ?_)
  rw [hsorted, hwhole (hall hget htarget)]
  exact hshows

/-- **The first statement of a request** is where it takes effect. -/
theorem first_statement (h : TableAt L arrivals order db) (hi : i ∉ order) {q : SqlStatement}
    {k : SqlReply → MemeProg Response} (hcall : (arrivals i).handle = .call q k) :
    TableAt L arrivals (order ++ [i]) (L.exec db q).2 ∧
      RequestAt arrivals (order ++ [i]) i (k (L.exec db q).1) := by
  rcases handleRequest_command (arrivals i).uuid (arrivals i).request with hp | ⟨hc, hlists⟩
  · exact first_of_program hvalid hstd hrel h hi (hp.trans (congrArg some hcall))
  · change OnlyLists (arrivals i).handle at hlists
    have hhandle : (arrivals i).request.method = "GET" →
        getTarget (checkUri (arrivals i).request.uri) = .list → (arrivals i).handle = memeList := by
      intro hget htarget
      unfold Arrival.handle handleRequest
      rw [if_neg (by rw [hget]; decide), if_neg (by rw [hget]; decide),
        if_neg (by rw [hget]; decide), if_pos hget, htarget]
    rw [hcall] at hlists hhandle
    cases hlists with
    | ended hend => cases hend
    | list => exact first_listing hvalid hstd hrel h hi (.inl rfl) hc fun _ _ => rfl
    | search query =>
      refine first_listing hvalid hstd hrel h hi (.inr ⟨query, rfl⟩) hc fun hget htarget => ?_
      -- the statement of a list has another text
      have htext : searchText tableName ["top_caption", "bot_caption"] =
          selectText tableName [] :=
        congrArg SqlStatement.text (Prog.call.inj (hhandle hget htarget)).1
      exact absurd htext (by decide)

end Statements

/-! ## Every interleaving -/

section Interleaving

variable {ι : Type} [DecidableEq ι] {Db : Type} {L : Sqlite Db} {arrivals : ι → Arrival}

/-- **Concurrent requests are as good as a sequence**: in whatever order the
statements of any number of requests are completed, every request that has executed
one has a place in the order of the first statements, which later requests do not
change. Its response is the one that it gets when the requests before it have been
served one after another, and the table has the memes that all of them leave, but
for views that are lost. -/
theorem memes_linearizable (hstd : L.Standard memeSchema) (hrel : L.Reliable memeSchema)
    (hvalid : ValidArrivals arrivals) {db : Db} (hempty : L.rows db = 0)
    {s : Pool Abort SqlStatement SqlReply Response Db ι}
    (h : Reachable (Pool.Step L.exec) (serving db arrivals) s) :
    (∃ records, Holds L s.shared records ∧
        ShowsAll (applyAll ((Pool.begun s.trace).map arrivals)) records) ∧
      (∀ i, i ∉ Pool.begun s.trace → s.threads i = (arrivals i).handle) ∧
      (∀ before i after, Pool.begun s.trace = before ++ i :: after →
        (∀ e, s.threads i ≠ .abort e) ∧ ∀ response, s.threads i = .ret response →
          AnswersAs (applyAll (before.map arrivals)) (arrivals i) response) ∧
      ∀ s', Reachable (Pool.Step L.exec) s s' → Pool.begun s.trace <+: Pool.begun s'.trace := by
  have hinit : TableAt L arrivals [] db :=
    ⟨List.nodup_nil, 0, fun _ => none, hempty, .empty, fun _ => .none⟩
  obtain ⟨htable, hthreads⟩ := Pool.first_queries h (I := TableAt L arrivals)
    (A := RequestAt arrivals) hinit
    (fun order db i q k ht hi hcall => first_statement hvalid hstd hrel ht hi hcall)
    (fun order db i q k ht hp => hp.later hstd hrel ht)
    (fun order i j p hj hp => hp.concat hvalid hj)
  refine ⟨?_, fun i hi => (hthreads i).1 hi, fun before i after horder => ?_,
    fun s' hs' => Pool.begun_prefix_of_reachable hs'⟩
  · obtain ⟨records, actual, hholds, hstores, hunder⟩ := htable.stores
    exact ⟨records, hholds, hstores.showsAll hunder⟩
  · have hmem : i ∈ Pool.begun s.trace := by
      rw [horder]
      simp
    have hat := (hthreads i).2 hmem
    constructor
    · intro e habort
      rw [habort] at hat
      cases hat
    · intro response hret
      rw [hret] at hat
      cases hat with
      | @answered before' after' _ horder' hanswer =>
        have hcut {u v : List ι} (huv : Pool.begun s.trace = u ++ i :: v) : i ∉ u := by
          have hnodup := Pool.nodup_begun s.trace
          rw [huv] at hnodup
          exact fun hi => (List.nodup_append.mp hnodup).2.2 i hi i List.mem_cons_self rfl
        obtain ⟨rfl, -⟩ := append_cons_cancel (hcut horder) (hcut horder')
          (horder.symm.trans horder')
        exact hanswer

end Interleaving

/-- Two GETs of a new meme, whose statements overlap: each of them gets its
texts, and one of the two views is lost. -/
theorem memes_linearizable_two_gets :
    let arrivals : Fin 3 → Arrival :=
      ![⟨"00000000-0000-4000-8000-000000000001", ⟨"", "POST", "/memes/", ∅,
          "memeSelect=a.jpg&topCaption=b&bottomCaption=c", ∅, true⟩⟩,
        ⟨"00000000-0000-4000-8000-000000000002", ⟨"", "GET",
          "/memes/00000000-0000-4000-8000-000000000001", ∅, "", ∅, true⟩⟩,
        ⟨"00000000-0000-4000-8000-000000000003", ⟨"", "GET",
          "/memes/00000000-0000-4000-8000-000000000001", ∅, "", ∅, true⟩⟩]
    ∃ s, (serving [] arrivals).play (reference memeSchema).exec [0, 1, 2, 2, 1] = some s ∧
      Pool.begun s.trace = [0, 1, 2] ∧
      (∃ records, Holds (reference memeSchema) s.shared records ∧
        ShowsAll (applyAll [arrivals 0, arrivals 1, arrivals 2]) records) ∧
      ∀ response, s.threads 2 = .ret response →
        AnswersAs (applyAll [arrivals 0, arrivals 1]) (arrivals 2) response := by
  intro arrivals
  have hplay : ((serving [] arrivals).play (reference memeSchema).exec [0, 1, 2, 2, 1]).any
      fun s => Pool.begun s.trace = [0, 1, 2] := by
    decide +kernel
  obtain ⟨s, hs, hbegun⟩ := (Option.any_eq_true _ _).mp hplay
  have horder : Pool.begun s.trace = [0, 1, 2] := of_decide_eq_true hbegun
  have hgets : (gets arrivals).encard < ((2 ^ 31 - 1 : Nat) : ℕ∞) := by
    refine (Set.encard_le_encard (Set.subset_univ _)).trans_lt ?_
    rw [Set.encard_univ, ENat.card_eq_coe_fintype_card, Fintype.card_fin]
    exact Nat.cast_lt.mpr (by decide)
  have hfresh : ∀ i j id, (arrivals i).command.drawn = some id →
      (arrivals j).command.drawn = some id → i = j := by
    have hnone : ∀ i, i ≠ 0 → (arrivals i).command.drawn = none := by decide +kernel
    intro i j id hi hj
    have hzero {i : Fin 3} (hi : (arrivals i).command.drawn = some id) : i = 0 := by
      by_contra hne
      rw [hnone i hne] at hi
      contradiction
    rw [hzero hi, hzero hj]
  obtain ⟨htable, -, hanswers, -⟩ := memes_linearizable (reference_standard memeSchema)
    (reference_reliable memeSchema) ⟨by decide, by decide, hfresh, hgets⟩ rfl
    (Pool.reachable_of_play hs)
  rw [horder] at htable hanswers
  exact ⟨s, hs, horder, htable, (hanswers [0, 1] 2 [] rfl).2⟩

end GittyUp
