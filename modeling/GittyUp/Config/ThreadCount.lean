import GittyUp.Config.Readings

/-!
# The thread count (`NginxConfig::ParseStatements`, `GetThreadCount`)

The value of `threadCount` is converted with `stoi` and stored in an unsigned
variable before it is tested, so that the test refuses zero only; of several
values the last one counts. A count is sane if it is the default or a positive
number that the config has behind `threadCount`, and no token but the numeral of a
positive number is used for it. `threadCountSane_iff`: it is exactly if the last token
that starts with an `int` is such a numeral, or starts with zero.
-/

namespace GittyUp

open Lib

/-- `text` stands behind a token `threadCount` of the statement. -/
def BehindThreadCount (statement : NginxConfigStatement) (text : Bytes) : Prop :=
  ∃ before mid after, statement.tokens = before ++ lit "threadCount" :: (mid ++ text :: after)

/-- `n` is written as a whole token behind a token `threadCount`. -/
def WritesThreadCount (config : NginxConfig) (n : Int) : Prop :=
  ∃ statement ∈ config, ∃ text, BehindThreadCount statement text ∧ numeral text = some n

/-- Of the tokens read behind `threadCount`, `token` is the last one that starts with an
`int`, and starts with `value`. -/
def LastThreads (config : NginxConfig) (token : Bytes) (value : Int) : Prop :=
  ∃ before after, configReadings false config = before ++ (lit "threadCount", token) :: after ∧
    stoi token = .ok value ∧ ∀ reading ∈ after, threadsOf reading = none

/-- The thread count is what `token` brings: the last token that starts with an `int`,
unless that is zero, for which the default is put back. -/
def UsesThreads (config : NginxConfig) (token : Bytes) : Prop :=
  ∃ value, LastThreads config token value ∧ value ≠ 0

/-- `GetThreadCount` is a positive `int`: the default, or one that is written behind
`threadCount`; and a token that is not the numeral of a positive number is not used for
it. -/
structure ThreadCountSane (config : NginxConfig) : Prop where
  range : 1 ≤ (parseStatements config).2.threadCount ∧
    (parseStatements config).2.threadCount ≤ 2 ^ 31 - 1
  written : (parseStatements config).2.threadCount = 10 ∨
    WritesThreadCount config (parseStatements config).2.threadCount
  used : ∀ token, UsesThreads config token →
    ∃ n : Int, 0 < n ∧ numeral token = some n ∧ (parseStatements config).2.threadCount = n

/-- The last token that starts with an `int` is the numeral of a positive number, or
starts with zero. -/
def LastThreadsWritten (config : NginxConfig) : Prop :=
  ∀ token value, LastThreads config token value →
    value = 0 ∨ (0 < value ∧ numeral token = some value)

/-- The `int` that is stored last, if any. -/
def lastThreads (config : NginxConfig) : Option Int :=
  ((configReadings false config).filterMap threadsOf).getLast?

theorem threadsOf_eq_some {prevToken token : Bytes} {value : Int} :
    threadsOf (prevToken, token) = some value ↔
      prevToken = lit "threadCount" ∧ stoi token = .ok value := by
  unfold threadsOf
  cases stoi token <;> simp [Except.toOption]

theorem lastThreads_eq_some {config : NginxConfig} {value : Int} :
    lastThreads config = some value ↔ ∃ token, LastThreads config token value := by
  rw [lastThreads, List.getLast?_filterMap, List.findSome?_eq_some_iff]
  constructor
  · rintro ⟨after, ⟨prevToken, token⟩, before, hrev, hvalue, hafter⟩
    obtain ⟨rfl, hstoi⟩ := threadsOf_eq_some.mp hvalue
    have hall := congrArg List.reverse hrev
    exact ⟨token, before.reverse, after.reverse, by simpa using hall, hstoi,
      by simpa using hafter⟩
  · rintro ⟨token, before, after, hall, hstoi, hafter⟩
    exact ⟨after.reverse, (lit "threadCount", token), before.reverse, by simp [hall],
      threadsOf_eq_some.mpr ⟨rfl, hstoi⟩, by simpa using hafter⟩

/-- A token is read behind one that stands before it. -/
theorem mem_readings {foundPort : Bool} {prevToken p t : Bytes} {tokens : List Bytes}
    (h : (p, t) ∈ readings foundPort prevToken tokens) :
    ∃ before mid after, prevToken :: tokens = before ++ p :: (mid ++ t :: after) := by
  induction tokens generalizing foundPort prevToken with
  | nil => cases h
  | cons token tokens ih =>
    rcases List.mem_cons.mp h with heq | h
    · cases heq
      exact ⟨[], [], tokens, rfl⟩
    · split_ifs at h
      · obtain ⟨before, mid, after, htokens⟩ := ih h
        cases before with
        | nil =>
          obtain ⟨rfl, htail⟩ := List.cons.inj htokens
          exact ⟨[], token :: mid, after, by rw [htail]; rfl⟩
        | cons d before =>
          obtain ⟨rfl, htail⟩ := List.cons.inj htokens
          exact ⟨prevToken :: token :: before, mid, after, by rw [htail]; rfl⟩
      · obtain ⟨before, mid, after, htokens⟩ := ih h
        exact ⟨prevToken :: before, mid, after, congrArg (prevToken :: ·) htokens⟩

theorem behindThreadCount_of_mem {foundPort : Bool} {config : NginxConfig} {token : Bytes}
    (h : (lit "threadCount", token) ∈ configReadings foundPort config) :
    ∃ statement ∈ config, BehindThreadCount statement token := by
  induction config generalizing foundPort with
  | nil => cases h
  | cons statement rest ih =>
    rcases List.mem_append.mp h with h | h
    · obtain ⟨before, mid, after, htokens⟩ := mem_readings h
      cases before with
      | nil => exact absurd (List.cons.inj htokens).1 (by decide)
      | cons d before =>
        exact ⟨statement, List.mem_cons_self, before, mid, after, (List.cons.inj htokens).2⟩
    · obtain ⟨s, hs, hbehind⟩ := ih h
      exact ⟨s, List.mem_cons_of_mem _ hs, hbehind⟩

/-- A numeral read as the last thread count is written behind `threadCount`. -/
theorem LastThreads.written {config : NginxConfig} {token : Bytes} {value : Int}
    (h : LastThreads config token value) (hnumeral : numeral token = some value) :
    WritesThreadCount config value := by
  obtain ⟨before, after, hall, -⟩ := h
  have hread : (lit "threadCount", token) ∈ configReadings false config := by
    rw [hall]
    simp
  obtain ⟨statement, hmem, hbehind⟩ := behindThreadCount_of_mem hread
  exact ⟨statement, hmem, token, hbehind, hnumeral⟩

theorem parseStatements_threadCount (config : NginxConfig) :
    (parseStatements config).2.threadCount = storeThreads 10 (lastThreads config) := by
  rw [parseStatements_eq]
  rfl

/-- A negative `int` comes out as a huge thread count, a positive one as itself. -/
theorem storeThreads_some {value : Int} (hlo : -2 ^ 31 ≤ value) (hhi : value < 2 ^ 31)
    (hne : value ≠ 0) :
    (value < 0 → 2 ^ 31 ≤ storeThreads 10 (some value)) ∧
      (0 < value → (storeThreads 10 (some value) : Int) = value) := by
  rw [storeThreads, if_neg hne]
  omega

/-- Without a value, or with zero, the count is the default. -/
theorem threadCount_default {config : NginxConfig} (h : (lastThreads config).getD 0 = 0) :
    (parseStatements config).2.threadCount = 10 := by
  rw [parseStatements_threadCount]
  cases hlast : lastThreads config with
  | none => rfl
  | some value =>
    rw [hlast, Option.getD_some] at h
    rw [h]
    rfl

/-- A token that is used brings a huge count if it starts with a negative number, and the
number it starts with if not. -/
theorem threadCount_used {config : NginxConfig} {token : Bytes} {value : Int}
    (h : LastThreads config token value) (hne : value ≠ 0) :
    (value < 0 → 2 ^ 31 ≤ (parseStatements config).2.threadCount) ∧
      (0 < value → ((parseStatements config).2.threadCount : Int) = value) ∧ value < 2 ^ 31 := by
  rw [parseStatements_threadCount, lastThreads_eq_some.mpr ⟨token, h⟩]
  obtain ⟨-, -, -, hstoi, -⟩ := h
  obtain ⟨hlo, hhi⟩ := stoi_range hstoi
  obtain ⟨hneg, hpos⟩ := storeThreads_some hlo hhi hne
  exact ⟨hneg, hpos, hhi⟩

/-- **The thread count is sane exactly if** the last token read for it that starts with an
`int` is the numeral of a positive number, or starts with zero. -/
theorem threadCountSane_iff (config : NginxConfig) :
    ThreadCountSane config ↔ LastThreadsWritten config := by
  constructor
  · intro h token value hlast
    by_cases hzero : value = 0
    · exact .inl hzero
    · obtain ⟨n, hn, hnumeral, hcount⟩ := h.used token ⟨value, hlast, hzero⟩
      obtain ⟨hneg, hpos, -⟩ := threadCount_used hlast hzero
      have hrange := h.range.2
      have hsign : 0 < value := by omega
      have hvalue : n = value := hcount.symm.trans (hpos hsign)
      exact .inr ⟨hsign, hvalue ▸ hnumeral⟩
  · intro h
    -- a token that is used is a positive numeral
    have hused : ∀ token, UsesThreads config token → ∃ n : Int, 0 < n ∧
        numeral token = some n ∧ (parseStatements config).2.threadCount = n := by
      rintro token ⟨value, hlast, hne⟩
      obtain ⟨hsign, hnumeral⟩ := (h token value hlast).resolve_left hne
      exact ⟨value, hsign, hnumeral, (threadCount_used hlast hne).2.1 hsign⟩
    by_cases hdefault : (lastThreads config).getD 0 = 0
    · have hten := threadCount_default hdefault
      exact ⟨by rw [hten]; decide, .inl hten, hused⟩
    · obtain ⟨value, hvalue⟩ : ∃ value, lastThreads config = some value := by
        cases hvalue : lastThreads config with
        | none => simp [hvalue] at hdefault
        | some value => exact ⟨value, rfl⟩
      rw [hvalue, Option.getD_some] at hdefault
      obtain ⟨token, hlast⟩ := lastThreads_eq_some.mp hvalue
      obtain ⟨hsign, hnumeral⟩ := (h token value hlast).resolve_left hdefault
      obtain ⟨-, hpos, hmax⟩ := threadCount_used hlast hdefault
      have hcount := hpos hsign
      refine ⟨by omega, .inr ?_, hused⟩
      rw [hcount]
      exact hlast.written hnumeral

/-- `threadCount -1;` asks for 4294967295 threads. -/
theorem negative_threadCount :
    ¬ ThreadCountSane
      [.mk [lit "port", lit "80"] none, .mk [lit "threadCount", lit "-1"] none] := by
  rintro ⟨⟨-, hmax⟩, -⟩
  revert hmax
  decide

end GittyUp
