import GittyUp.Config.Readings

/-!
# The selected port (`NginxConfig::ParseStatements`, `GetPort`)

A port is stated by a statement `port N`. `ParseStatements` takes more for one:
`port` may stand anywhere in the statement, values that are refused are passed
over, and a value has only to start with a port number. `selectsPort_iff`: it
selects what is stated exactly if the first statement that it takes for a port
gives the number that is stated first.
-/

namespace GittyUp

open Lib

/-! ## Ports that are stated, and ports that are offered -/

/-- The `N` of a statement that is `port N` and nothing more, where `N` as a whole is
the numeral of a port number. -/
def statedPort (statement : NginxConfigStatement) : Option Int :=
  match statement.tokens with
  | [keyword, text] =>
    if keyword = "port" then (numeral text).filter fun n => 1 ≤ n ∧ n ≤ 65535 else none
  | _ => none

/-- Behind the tokens `read`, a thread count is awaited: no token behind some `threadCount`
among them starts with an `int` other than zero. -/
def AwaitsThreads (read : List Bytes) : Prop :=
  ∃ before after, read = before ++ lit "threadCount" :: after ∧
    ∀ token ∈ after, (stoi token).toOption.getD 0 = 0

/-- A port is awaited: there is a `port` among them that did not stand where a thread
count was awaited. -/
def AwaitsPort (read : List Bytes) : Prop :=
  ∃ before after, read = before ++ lit "port" :: after ∧ ¬ AwaitsThreads before

/-- Of the tokens behind `read`, the first to start with a port number where a port is
awaited starts with `n`. -/
def FirstPort (read tokens : List Bytes) (n : Int) : Prop :=
  ∃ mid token rest, tokens = mid ++ token :: rest ∧ AwaitsPort (read ++ mid) ∧
    portNumber token = some n ∧
      ∀ mid' token' rest', mid = mid' ++ token' :: rest' → AwaitsPort (read ++ mid') →
        portNumber token' = none

/-- The statement offers the port number `n`. -/
def OffersPort (statement : NginxConfigStatement) (n : Int) : Prop :=
  FirstPort [] statement.tokens n

/-- `ParseStatements` finds a port exactly if one is stated, and then `GetPort` is the
first one stated. -/
def SelectsPort (config : NginxConfig) : Prop :=
  ((parseStatements config).1 = true ↔
      ∃ statement ∈ config, ∃ n, statedPort statement = some n) ∧
    ∀ n, config.findSome? statedPort = some n → (parseStatements config).2.port = some n

/-- The first statement that offers a port states it; or, if it does not, the first one
behind it that states a port states the same number. -/
def FirstOfferStated (config : NginxConfig) : Prop :=
  ∀ before statement rest n, config = before ++ statement :: rest →
    (∀ s ∈ before, ∀ m, ¬ OffersPort s m) → OffersPort statement n →
    (statement :: rest).findSome? statedPort = some n

/-! ## What is awaited is what is pending -/

/-- The port number read first in a statement, off the readings. -/
def offeredPort (statement : NginxConfigStatement) : Option Int :=
  (readings false "" statement.tokens).findSome? portOf

theorem awaitsThreads_concat {read : List Bytes} {token : Bytes} :
    AwaitsThreads (read ++ [token]) ↔ token = lit "threadCount" ∨
      AwaitsThreads read ∧ (stoi token).toOption.getD 0 = 0 := by
  unfold AwaitsThreads
  rw [exists_cut_concat]
  constructor
  · rintro (⟨rfl, -⟩ | ⟨before, after, hread, hall⟩)
    · exact .inl rfl
    · obtain ⟨hafter, htoken⟩ := List.forall_mem_append.mp hall
      exact .inr ⟨⟨before, after, hread, hafter⟩, htoken token (List.mem_singleton_self token)⟩
  · rintro (rfl | ⟨⟨before, after, hread, hafter⟩, htoken⟩)
    · exact .inl ⟨rfl, List.forall_mem_nil _⟩
    · exact .inr ⟨before, after, hread,
        List.forall_mem_append.mpr ⟨hafter, List.forall_mem_singleton.mpr htoken⟩⟩

theorem awaitsPort_concat {read : List Bytes} {token : Bytes} :
    AwaitsPort (read ++ [token]) ↔
      token = lit "port" ∧ ¬ AwaitsThreads read ∨ AwaitsPort read := by
  unfold AwaitsPort
  rw [exists_cut_concat]

/-- As long as no port is found, `prev_token` is the keyword that awaits a value behind
the tokens read, if there is one. -/
structure Pending (read : List Bytes) (prevToken : Bytes) : Prop where
  port : prevToken = lit "port" ↔ AwaitsPort read
  threads : prevToken = lit "threadCount" ↔ AwaitsThreads read ∧ ¬ AwaitsPort read

namespace Pending

variable {read : List Bytes} {prevToken token : Bytes}

theorem start : Pending [] "" := by
  constructor
  · exact iff_of_false (by decide) (by simp [AwaitsPort])
  · exact iff_of_false (by decide) (by simp [AwaitsThreads])

/-- A refused value leaves `port` pending. -/
theorem step_port (hport : AwaitsPort read) (hnone : portNumber token = none) :
    Pending (read ++ [token])
      (if Refuses false (lit "port") token then lit "port" else token) := by
  have hport' : AwaitsPort (read ++ [token]) := awaitsPort_concat.mpr (.inr hport)
  rw [if_pos (.inl ⟨rfl, rfl, hnone⟩)]
  exact ⟨iff_of_true rfl hport', iff_of_false keywords_ne.2.1 fun h => h.2 hport'⟩

/-- `threadCount` is left pending, or a value is taken, and that is no keyword. -/
theorem step_threads (hthreads : AwaitsThreads read) (hport : ¬ AwaitsPort read) :
    Pending (read ++ [token])
      (if Refuses false (lit "threadCount") token then lit "threadCount" else token) := by
  have hkeyword := keywords_ne.2.1.symm
  have hport' : ¬ AwaitsPort (read ++ [token]) := fun h =>
    (awaitsPort_concat.mp h).elim (fun h => h.2 hthreads) hport
  by_cases hvalue : (stoi token).toOption.getD 0 = 0
  · have hthreads' := awaitsThreads_concat.mpr (.inr ⟨hthreads, hvalue⟩)
    rw [if_pos (.inr ⟨rfl, hvalue⟩)]
    exact ⟨iff_of_false hkeyword hport', iff_of_true rfl ⟨hthreads', hport'⟩⟩
  · have hrefuses : ¬ Refuses false (lit "threadCount") token := by
      rintro (⟨h, -⟩ | ⟨-, h⟩)
      · exact hkeyword h
      · exact hvalue h
    have hne : token ≠ lit "port" ∧ token ≠ lit "threadCount" := by
      constructor <;> rintro rfl <;> exact hvalue (by decide)
    rw [if_neg hrefuses]
    refine ⟨iff_of_false hne.1 hport', iff_of_false hne.2 fun h => ?_⟩
    exact (awaitsThreads_concat.mp h.1).elim hne.2 fun h => hvalue h.2

/-- Where nothing is awaited, the token comes next. -/
theorem step_word (hthreads : ¬ AwaitsThreads read) (hport : ¬ AwaitsPort read) :
    Pending (read ++ [token]) token := by
  constructor
  · rw [awaitsPort_concat, or_iff_left hport, and_iff_left hthreads]
  · rw [awaitsPort_concat, or_iff_left hport, and_iff_left hthreads, awaitsThreads_concat,
      or_iff_left fun h => hthreads h.1]
    exact ⟨fun h => ⟨h, fun hp => keywords_ne.2.1 (hp ▸ h)⟩, fun h => h.1⟩

/-- One more token that is not taken for the port. -/
theorem step (h : Pending read prevToken) (hnone : portOf (prevToken, token) = none) :
    Pending (read ++ [token]) (if Refuses false prevToken token then prevToken else token) := by
  by_cases hport : AwaitsPort read
  · obtain rfl := h.port.mpr hport
    rw [portOf, if_pos rfl] at hnone
    exact step_port hport hnone
  · by_cases hthreads : AwaitsThreads read
    · obtain rfl := h.threads.mpr ⟨hthreads, hport⟩
      exact step_threads hthreads hport
    · have hrefuses : ¬ Refuses false prevToken token := by
        rintro (⟨hp, -⟩ | ⟨ht, -⟩)
        · exact hport (h.port.mp hp)
        · exact hthreads (h.threads.mp ht).1
      rw [if_neg hrefuses]
      exact step_word hthreads hport

end Pending

/-- The next token is the first one. -/
theorem firstPort_take {read tokens : List Bytes} {token : Bytes} {m n : Int}
    (hawaits : AwaitsPort read) (hnumber : portNumber token = some m) :
    FirstPort read (token :: tokens) n ↔ m = n := by
  rw [← List.append_nil read] at hawaits
  constructor
  · rintro ⟨mid, token', rest, htokens, -, hnumber', hfirst⟩
    cases mid with
    | nil =>
      obtain ⟨rfl, -⟩ := List.cons.inj htokens
      exact Option.some.inj (hnumber.symm.trans hnumber')
    | cons d mid =>
      obtain ⟨rfl, -⟩ := List.cons.inj htokens
      rw [hfirst [] token mid rfl hawaits] at hnumber
      cases hnumber
  · rintro rfl
    exact ⟨[], token, tokens, rfl, hawaits, hnumber, by simp⟩

/-- The next token is not the first one. -/
theorem firstPort_skip {read tokens : List Bytes} {token : Bytes} {n : Int}
    (hnone : AwaitsPort read → portNumber token = none) :
    FirstPort read (token :: tokens) n ↔ FirstPort (read ++ [token]) tokens n := by
  have hread (mid : List Bytes) : read ++ [token] ++ mid = read ++ token :: mid := by simp
  simp only [FirstPort, hread]
  constructor
  · rintro ⟨mid, token', rest, htokens, hawaits, hnumber, hfirst⟩
    cases mid with
    | nil =>
      obtain ⟨rfl, -⟩ := List.cons.inj htokens
      rw [List.append_nil] at hawaits
      rw [hnone hawaits] at hnumber
      cases hnumber
    | cons d mid =>
      obtain ⟨rfl, htail⟩ := List.cons.inj htokens
      refine ⟨mid, token', rest, htail, hawaits, hnumber, fun mid' token'' rest' hmid => ?_⟩
      exact hfirst (token :: mid') token'' rest' (congrArg (token :: ·) hmid)
  · rintro ⟨mid, token', rest, rfl, hawaits, hnumber, hfirst⟩
    refine ⟨token :: mid, token', rest, rfl, hawaits, hnumber, ?_⟩
    intro mid' token'' rest' hmid hawaits'
    cases mid' with
    | nil =>
      obtain ⟨rfl, -⟩ := List.cons.inj hmid
      rw [List.append_nil] at hawaits'
      exact hnone hawaits'
    | cons d mid' =>
      obtain ⟨rfl, htail⟩ := List.cons.inj hmid
      exact hfirst mid' token'' rest' htail hawaits'

/-- The readings find the first port number where one is awaited. -/
theorem Pending.findSome?_readings {read : List Bytes} {prevToken : Bytes}
    (h : Pending read prevToken) (tokens : List Bytes) (n : Int) :
    (readings false prevToken tokens).findSome? portOf = some n ↔ FirstPort read tokens n := by
  induction tokens generalizing read prevToken with
  | nil => simp [readings, FirstPort]
  | cons token tokens ih =>
    rw [readings, List.findSome?_cons]
    cases hport : portOf (prevToken, token) with
    | some m =>
      obtain ⟨rfl, hnumber⟩ : prevToken = lit "port" ∧ portNumber token = some m := by
        unfold portOf at hport
        split_ifs at hport with hp
        exact ⟨hp, hport⟩
      rw [firstPort_take (h.port.mp rfl) hnumber]
      exact Option.some_inj
    | none =>
      have hnone : AwaitsPort read → portNumber token = none := fun hawaits => by
        rwa [portOf, if_pos (h.port.mpr hawaits)] at hport
      rw [firstPort_skip hnone]
      exact ih (h.step hport)

theorem offeredPort_eq_some {statement : NginxConfigStatement} {n : Int} :
    offeredPort statement = some n ↔ OffersPort statement n :=
  Pending.start.findSome?_readings statement.tokens n

theorem offeredPort_eq_none {statement : NginxConfigStatement} :
    offeredPort statement = none ↔ ∀ n, ¬ OffersPort statement n := by
  simp only [← offeredPort_eq_some, Option.eq_none_iff_forall_ne_some, ne_eq]

theorem statedPort_eq_some {statement : NginxConfigStatement} {n : Int} :
    statedPort statement = some n ↔
      ∃ text, statement.tokens = [lit "port", text] ∧ numeral text = some n ∧
        1 ≤ n ∧ n ≤ 65535 := by
  constructor
  · intro h
    unfold statedPort at h
    split at h
    · next keyword text htokens =>
      split_ifs at h with hkeyword
      simp only [Option.filter_eq_some_iff, decide_eq_true_eq] at h
      exact ⟨text, by rw [htokens, hkeyword], h⟩
    · cases h
  · rintro ⟨text, htokens, hnumeral, hrange⟩
    rw [statedPort, htokens]
    simp [hnumeral, hrange]

/-- What is stated is offered. -/
theorem offeredPort_of_stated {statement : NginxConfigStatement} {n : Int}
    (h : statedPort statement = some n) : offeredPort statement = some n := by
  obtain ⟨text, htokens, hnumeral, hlo, hhi⟩ := statedPort_eq_some.mp h
  have hvalue : stoi text = .ok n := stoi_numeral hnumeral (by omega) (by omega)
  have hnumber : portNumber text = some n := portNumber_eq_some.mpr ⟨hvalue, hlo, hhi⟩
  have hkeyword : portOf ("", lit "port") = none := by decide
  have hfirst : ¬ Refuses false "" (lit "port") := by decide
  have hreadings : readings false "" [lit "port", text] =
      [(lit "", lit "port"), (lit "port", text)] := by
    rw [readings, if_neg hfirst, hkeyword]
    rfl
  rw [offeredPort, htokens, hreadings, List.findSome?_cons, hkeyword]
  simp [portOf, hnumber]

/-- A statement that offers no port leaves the next one to be read as the first. -/
theorem findSome?_configReadings (config : NginxConfig) :
    (configReadings false config).findSome? portOf = config.findSome? offeredPort := by
  induction config with
  | nil => rfl
  | cons statement rest ih =>
    rw [configReadings, List.findSome?_append, List.findSome?_cons]
    show (offeredPort statement).or _ = _
    cases hoffered : offeredPort statement with
    | some n => rfl
    | none =>
      unfold offeredPort at hoffered
      rw [hoffered]
      exact ih

/-- Where no port is offered, none is stated. -/
theorem findSome?_statedPort {config : NginxConfig} (h : ∀ s ∈ config, offeredPort s = none) :
    config.findSome? statedPort = none := by
  rw [List.findSome?_eq_none_iff]
  intro s hs
  cases hstated : statedPort s with
  | none => rfl
  | some n =>
    have hoffered := offeredPort_of_stated hstated
    rw [h s hs] at hoffered
    cases hoffered

theorem firstOfferStated_iff (config : NginxConfig) :
    FirstOfferStated config ↔
      config.findSome? statedPort = config.findSome? offeredPort := by
  constructor
  · intro h
    cases hoffer : config.findSome? offeredPort with
    | none => exact findSome?_statedPort (List.findSome?_eq_none_iff.mp hoffer)
    | some n =>
      obtain ⟨before, statement, rest, rfl, hoffered, hbefore⟩ :=
        List.findSome?_eq_some_iff.mp hoffer
      rw [List.findSome?_append, findSome?_statedPort hbefore, Option.none_or]
      exact h before statement rest n rfl (fun s hs => offeredPort_eq_none.mp (hbefore s hs))
        (offeredPort_eq_some.mp hoffered)
  · rintro h before statement rest n rfl hbefore hoffered
    have hbefore := fun s hs => offeredPort_eq_none.mpr (hbefore s hs)
    have hoffered := offeredPort_eq_some.mpr hoffered
    rw [List.findSome?_eq_some_iff.mpr ⟨before, statement, rest, rfl, hoffered, hbefore⟩,
      List.findSome?_append, findSome?_statedPort hbefore, Option.none_or] at h
    exact h

/-- The port that is selected: the first one offered. -/
theorem parseStatements_port (config : NginxConfig) :
    (parseStatements config).1 = (config.findSome? offeredPort).isSome ∧
      (parseStatements config).2.port = config.findSome? offeredPort := by
  rw [parseStatements_eq, ← findSome?_configReadings]
  exact ⟨rfl, rfl⟩

/-- **Port selection is right exactly if** what the first offering statement offers is
the first number stated. -/
theorem selectsPort_iff (config : NginxConfig) :
    SelectsPort config ↔ FirstOfferStated config := by
  obtain ⟨hfound, hport⟩ := parseStatements_port config
  have hstated : (config.findSome? statedPort).isSome = true ↔
      ∃ statement ∈ config, ∃ n, statedPort statement = some n := by
    rw [List.findSome?_isSome_iff]
    simp only [Option.isSome_iff_exists]
  rw [firstOfferStated_iff, SelectsPort, hfound, hport, ← hstated]
  constructor
  · rintro ⟨hsome, hfirst⟩
    cases hs : config.findSome? statedPort with
    | some n => exact (hfirst n hs).symm
    | none =>
      rw [hs] at hsome
      exact (Option.not_isSome_iff_eq_none.mp fun h => Bool.noConfusion (hsome.mp h)).symm
  · intro heq
    rw [heq]
    exact ⟨Iff.rfl, fun n h => h⟩

/-- `port 80abc;` is taken for port 80. -/
theorem junk_port_selected : ¬ SelectsPort [.mk [lit "port", lit "80abc"] none] := by
  rintro ⟨hfound, -⟩
  obtain ⟨statement, hmem, n, hn⟩ := hfound.mp (by decide)
  have hnone : statedPort (.mk [lit "port", lit "80abc"] none) = none := by decide
  rw [List.mem_singleton.mp hmem, hnone] at hn
  cases hn

end GittyUp
