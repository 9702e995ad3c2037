import GittyUp.Config.Settings

/-!
# Which token `ParseStatements` reads behind which keyword

`prev_token` is the token before, or a keyword whose value was refused and that
still waits for one. `readings` lists the tokens with the `prev_token` each is
read behind; the settings are then read off that list (`parseStatements_eq`): the
port is the first port number behind `port`, the root and the thread count are
the last ones behind `root` and `threadCount`.
-/

namespace GittyUp

open Lib

/-- The port number a token starts with. -/
def portNumber (token : Bytes) : Option Int :=
  (stoi token).toOption.filter fun n => 0 < n ∧ n ≤ 65535

/-- The keyword `prevToken` goes on waiting behind `token`. -/
def Refuses (foundPort : Bool) (prevToken token : Bytes) : Prop :=
  (prevToken = "port" ∧ foundPort = false ∧ portNumber token = none) ∨
    (prevToken = "threadCount" ∧ (stoi token).toOption.getD 0 = 0)

instance (foundPort : Bool) (prevToken token : Bytes) :
    Decidable (Refuses foundPort prevToken token) :=
  inferInstanceAs (Decidable (_ ∨ _))

/-- The port number that a token brings behind its `prev_token`. -/
def portOf (reading : Bytes × Bytes) : Option Int :=
  if reading.1 = "port" then portNumber reading.2 else none

/-- The root that a token brings. -/
def rootOf (reading : Bytes × Bytes) : Option Bytes :=
  if reading.1 = "root" then some (if reading.2 = "." then "" else reading.2) else none

/-- The `int` that a token brings as a thread count. -/
def threadsOf (reading : Bytes × Bytes) : Option Int :=
  if reading.1 = "threadCount" then (stoi reading.2).toOption else none

/-- The tokens of a statement, each with the `prev_token` it is read behind. -/
def readings : Bool → Bytes → List Bytes → List (Bytes × Bytes)
  | _, _, [] => []
  | foundPort, prevToken, token :: tokens =>
    (prevToken, token) ::
      readings (foundPort || (portOf (prevToken, token)).isSome)
        (if Refuses foundPort prevToken token then prevToken else token) tokens

/-- The same for the statements of a config. -/
def configReadings : Bool → NginxConfig → List (Bytes × Bytes)
  | _, [] => []
  | foundPort, statement :: rest =>
    readings foundPort "" statement.tokens ++
      configReadings
        (foundPort || ((readings foundPort "" statement.tokens).findSome? portOf).isSome) rest

/-- `threads` after an `int` is stored in it: modulo `2 ^ 32`, and `10` for zero. -/
def storeThreads (threads : Nat) : Option Int → Nat
  | none => threads
  | some value => if value = 0 then 10 else (value % 2 ^ 32).toNat

/-- What the scan makes of a state and the tokens it reads. -/
def SettingsScan.after (st : SettingsScan) (rs : List (Bytes × Bytes)) : SettingsScan where
  port := if st.foundPort then st.port else (rs.findSome? portOf).or st.port
  foundPort := st.foundPort || (rs.findSome? portOf).isSome
  root := (rs.filterMap rootOf).getLastD st.root
  threads := storeThreads st.threads (rs.filterMap threadsOf).getLast?

theorem portNumber_eq_some {token : Bytes} {n : Int} :
    portNumber token = some n ↔ stoi token = .ok n ∧ 0 < n ∧ n ≤ 65535 := by
  unfold portNumber
  cases stoi token with
  | error e => simp [Except.toOption]
  | ok v =>
    simp only [Except.toOption, Option.filter_eq_some_iff, Option.some.injEq, Except.ok.injEq,
      decide_eq_true_eq]

/-! ## The scan reads its settings off the readings -/

/-- The three keywords differ. -/
theorem keywords_ne : lit "port" ≠ lit "root" ∧ lit "port" ≠ lit "threadCount" ∧
    lit "root" ≠ lit "threadCount" := by
  decide

theorem SettingsScan.after_singleton (st : SettingsScan) (r : Bytes × Bytes) :
    st.after [r] =
      { port := if st.foundPort then st.port else (portOf r).or st.port
        foundPort := st.foundPort || (portOf r).isSome
        root := (rootOf r).getD st.root
        threads := storeThreads st.threads (threadsOf r) } := by
  cases hp : portOf r <;> cases hr : rootOf r <;> cases ht : threadsOf r <;>
    simp [SettingsScan.after, hp, hr, ht]

/-- Behind `port`, as long as no port has been found. -/
theorem scanToken_port (st : SettingsScan) (token : Bytes) (h : st.foundPort = false) :
    scanToken st "port" token =
      ({ st with port := (portNumber token).or st.port, foundPort := (portNumber token).isSome },
        if portNumber token = none then lit "port" else token) := by
  rw [scanToken, if_pos ⟨rfl, h⟩]
  cases hnumber : portNumber token with
  | some port =>
    obtain ⟨hvalue, hrange⟩ := portNumber_eq_some.mp hnumber
    rw [hvalue]
    simp [hrange]
  | none =>
    cases hvalue : stoi token with
    | error e => simp [← h]
    | ok port =>
      have hrange : ¬ (0 < port ∧ port ≤ 65535) := fun hrange => by
        rw [portNumber_eq_some.mpr ⟨hvalue, hrange⟩] at hnumber
        cases hnumber
      simp [hrange, ← h]

/-- Behind `threadCount`. -/
theorem scanToken_threadCount (st : SettingsScan) (token : Bytes) :
    scanToken st "threadCount" token =
      ({ st with threads := storeThreads st.threads (stoi token).toOption },
        if (stoi token).toOption.getD 0 = 0 then lit "threadCount" else token) := by
  have hport : ¬ (lit "threadCount" = "port" ∧ st.foundPort = false) := fun h =>
    keywords_ne.2.1 h.1.symm
  rw [scanToken, if_neg hport, if_neg keywords_ne.2.2.symm, if_pos rfl]
  cases hvalue : stoi token with
  | error e => simp [Except.toOption, storeThreads]
  | ok value =>
    have hrange := stoi_range hvalue
    by_cases hzero : value = 0
    · subst hzero
      simp [Except.toOption, storeThreads]
    · have hpos : 0 < (value % 2 ^ 32).toNat := by omega
      simp only [hpos, if_true, Except.toOption, storeThreads, hzero, if_false, Option.getD_some]

/-- One iteration of the scan adds one reading. -/
theorem scanToken_eq (st : SettingsScan) (prevToken token : Bytes) :
    scanToken st prevToken token =
      (st.after [(prevToken, token)],
        if Refuses st.foundPort prevToken token then prevToken else token) := by
  obtain ⟨hpr, hpt, hrt⟩ := keywords_ne
  rw [SettingsScan.after_singleton]
  by_cases hport : prevToken = "port" ∧ st.foundPort = false
  · obtain ⟨rfl, hfound⟩ := hport
    rw [scanToken_port st token hfound]
    simp [Refuses, portOf, rootOf, threadsOf, storeThreads, hfound, hpr, hpt]
  · by_cases hthreads : prevToken = "threadCount"
    · subst hthreads
      rw [scanToken_threadCount]
      simp [Refuses, portOf, rootOf, threadsOf, hpt.symm, hrt.symm]
    · have hrefuses : ¬ Refuses st.foundPort prevToken token := by
        rintro (⟨hp, hf, -⟩ | ⟨ht, -⟩)
        · exact hport ⟨hp, hf⟩
        · exact hthreads ht
      have hold : (if st.foundPort then st.port else (portOf (prevToken, token)).or st.port) =
          st.port ∧ (st.foundPort || (portOf (prevToken, token)).isSome) = st.foundPort := by
        cases hfound : st.foundPort with
        | true => exact ⟨rfl, rfl⟩
        | false =>
          have hp : prevToken ≠ "port" := fun hp => hport ⟨hp, hfound⟩
          simp [portOf, hp]
      rw [if_neg hrefuses, hold.1, hold.2, scanToken, if_neg hport, if_neg hthreads]
      by_cases hroot : prevToken = "root"
      · simp [rootOf, threadsOf, storeThreads, hroot, hrt]
      · simp [rootOf, threadsOf, storeThreads, hroot, hthreads]

theorem storeThreads_or (n : Nat) (first last : Option Int) :
    storeThreads (storeThreads n first) last = storeThreads n (last.or first) := by
  cases last <;> rfl

/-- Readings one after the other. -/
theorem SettingsScan.after_append (st : SettingsScan) (rs rs' : List (Bytes × Bytes)) :
    (st.after rs).after rs' = st.after (rs ++ rs') := by
  have hport : (rs ++ rs').findSome? portOf =
      (rs.findSome? portOf).or (rs'.findSome? portOf) := List.findSome?_append
  simp only [SettingsScan.after, storeThreads_or, List.filterMap_append, List.getLast?_append,
    hport, List.getLastD_eq_getLast?]
  cases st.foundPort <;> cases rs.findSome? portOf <;> cases (rs'.filterMap rootOf).getLast? <;>
    simp

/-- The scan of a statement. -/
theorem scanTokens_eq (st : SettingsScan) (prevToken : Bytes) (tokens : List Bytes) :
    scanTokens st prevToken tokens = st.after (readings st.foundPort prevToken tokens) := by
  induction tokens generalizing st prevToken with
  | nil => simp [scanTokens, readings, SettingsScan.after, storeThreads]
  | cons token tokens ih =>
    have hfound : (st.after [(prevToken, token)]).foundPort =
        (st.foundPort || (portOf (prevToken, token)).isSome) := by
      rw [SettingsScan.after_singleton]
    rw [scanTokens, scanToken_eq, ih, hfound, SettingsScan.after_append]
    rfl

/-- The scan of a config. -/
theorem scanStatements_eq (st : SettingsScan) (config : NginxConfig) :
    scanStatements st config = st.after (configReadings st.foundPort config) := by
  induction config generalizing st with
  | nil => simp [scanStatements, configReadings, SettingsScan.after, storeThreads]
  | cons statement rest ih =>
    rw [scanStatements, scanTokens_eq, ih, SettingsScan.after_append]
    rfl

/-- **`ParseStatements`, off the readings**: whether there is a port, the first one,
the last thread count and the last root. -/
theorem parseStatements_eq (config : NginxConfig) :
    parseStatements config =
      let rs := configReadings false config
      ((rs.findSome? portOf).isSome,
        ⟨rs.findSome? portOf, storeThreads 10 (rs.filterMap threadsOf).getLast?,
          (rs.filterMap rootOf).getLastD ""⟩) := by
  unfold parseStatements
  rw [scanStatements_eq]
  simp [SettingsScan.after]

-- the refused value leaves `threadCount` pending, so that it swallows `port`
example : (readings false "" [lit "threadCount", lit "port", lit "80"]).map Prod.fst =
    [lit "", lit "threadCount", lit "threadCount"] := by
  decide

end GittyUp
