import GittyUp.Config.Tree
import GittyUp.Lib.Numeral

/-!
# The settings in a config (`NginxConfig::ParseStatements`)

`ParseStatements` scans the tokens of the top-level statements for a port, a
root directory and a thread count. The token after a keyword is its value; a
value that is refused leaves the keyword pending, so that the token after it is
tried next.
-/

namespace GittyUp

open Lib

/-- The local variables of `ParseStatements` that live across statements, with
the field `port_` (`none` while it is uninitialized). -/
structure SettingsScan where
  port : Option Int
  foundPort : Bool
  root : Bytes
  threads : Nat

/-- The private fields of an `NginxConfig` after `ParseStatements`, which `GetPort`,
`GetThreadCount` and `GetServerRoot` return. -/
structure Settings where
  port : Option Int
  threadCount : Nat
  root : Bytes

/-- One iteration of the inner loop: the new state and the new `prev_token`. -/
def scanToken (st : SettingsScan) (prevToken token : Bytes) : SettingsScan × Bytes :=
  if prevToken = "port" ∧ st.foundPort = false then
    match stoi token with
    | .ok port =>
      if 0 < port ∧ port ≤ 65535 then
        ({ st with port := some port, foundPort := true }, token)
      else (st, prevToken)
    -- `continue` leaves `prev_token`, so that the next token is tried
    | .error _ => (st, prevToken)
  else if prevToken = "root" then
    ({ st with root := if token = "." then "" else token }, token)
  else if prevToken = "threadCount" then
    match stoi token with
    | .ok value =>
      -- the `int` is assigned to an `unsigned int`
      let threads := (value % 2 ^ 32).toNat
      if 0 < threads then ({ st with threads := threads }, token)
      else ({ st with threads := 10 }, prevToken)
    | .error _ => (st, prevToken)
  else (st, token)

/-- The inner loop, over the tokens of one statement. -/
def scanTokens : SettingsScan → Bytes → List Bytes → SettingsScan
  | st, _, [] => st
  | st, prevToken, token :: tokens =>
    scanTokens (scanToken st prevToken token).1 (scanToken st prevToken token).2 tokens

/-- The outer loop. -/
def scanStatements : SettingsScan → NginxConfig → SettingsScan
  | st, [] => st
  | st, statement :: rest => scanStatements (scanTokens st "" statement.tokens) rest

/-- `NginxConfig::ParseStatements` on a fresh config: the returned flag and the
fields it leaves. -/
def parseStatements (config : NginxConfig) : Bool × Settings :=
  let st := scanStatements ⟨none, false, "", 10⟩ config
  (st.foundPort, ⟨st.port, st.threads, st.root⟩)

/-! ## The settings are in range -/

/-- A found port is a port number, and the thread count is a positive
`unsigned int`. -/
structure SettingsScan.InRange (st : SettingsScan) : Prop where
  port : st.foundPort = true → ∃ port, st.port = some port ∧ 0 < port ∧ port ≤ 65535
  threads : 0 < st.threads ∧ st.threads < 2 ^ 32

theorem SettingsScan.InRange.scanToken {st : SettingsScan} (h : st.InRange)
    (prevToken token : Bytes) : (GittyUp.scanToken st prevToken token).1.InRange := by
  unfold GittyUp.scanToken
  split_ifs with hport hroot hdot hthreads
  · split
    · next port _ =>
      split_ifs with hrange
      · exact ⟨fun _ => ⟨port, rfl, hrange⟩, h.threads⟩
      · exact h
    · exact h
  · exact ⟨h.port, h.threads⟩
  · exact ⟨h.port, h.threads⟩
  · split
    · next value _ =>
      dsimp only
      split_ifs with hpos
      · refine ⟨h.port, hpos, ?_⟩
        show (value % 2 ^ 32).toNat < 2 ^ 32
        omega
      · refine ⟨h.port, ?_⟩
        show 0 < 10 ∧ 10 < 2 ^ 32
        decide
    · exact h
  · exact h

theorem SettingsScan.InRange.scanTokens {st : SettingsScan} (h : st.InRange)
    (prevToken : Bytes) (tokens : List Bytes) :
    (GittyUp.scanTokens st prevToken tokens).InRange := by
  induction tokens generalizing st prevToken with
  | nil => exact h
  | cons token tokens ih => exact ih (h.scanToken prevToken token) _

theorem SettingsScan.InRange.scanStatements {st : SettingsScan} (h : st.InRange)
    (config : NginxConfig) : (GittyUp.scanStatements st config).InRange := by
  induction config generalizing st with
  | nil => exact h
  | cons statement rest ih => exact ih (h.scanTokens _ _)

/-- **What `ParseStatements` leaves is usable**: with `true` it has stored a port
number, and in any case a positive thread count. -/
theorem parseStatements_inRange (config : NginxConfig) :
    ((parseStatements config).1 = true →
        ∃ port, (parseStatements config).2.port = some port ∧ 0 < port ∧ port ≤ 65535) ∧
      0 < (parseStatements config).2.threadCount ∧
        (parseStatements config).2.threadCount < 2 ^ 32 := by
  have hinit : SettingsScan.InRange ⟨none, false, "", 10⟩ :=
    ⟨by simp, by decide⟩
  have h := hinit.scanStatements config
  exact ⟨h.port, h.threads⟩

end GittyUp
