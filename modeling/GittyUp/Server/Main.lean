import GittyUp.Config.Parser
import GittyUp.Config.Settings
import GittyUp.Router.Router

/-!
# Startup (`server_main.cc`, `server.cc`)

`main` parses the config file, reads the settings, opens the acceptor, creates
the router and starts to accept connections. It does not look at the flag that
`Parse` returns: `malformedNeverServed_iff` says for which files this makes no
difference.
-/

namespace GittyUp

open Lib

/-! ## The server -/

/-- The scan of `server::create_router`; the last `router` block wins. -/
def routerConfigLoop : NginxConfig → Option NginxConfig → Option (Option NginxConfig)
  | [], output => some output
  | statement :: rest, output =>
    match statement.childBlock with
    | none => routerConfigLoop rest output
    | some child => do
      let keyword ← statement.tokens[0]?
      if keyword = lit "router" then routerConfigLoop rest (some child)
      else routerConfigLoop rest output

/-- `server::create_router`: the router, if the config has a block for it. -/
def createRouter (config : NginxConfig) (serverRoot : Bytes) (recorder : StatusRecorder) :
    Option (Option RouterState) := do
  match ← routerConfigLoop config none with
  | none => some none
  | some output => do
    let st ← registerRoutesFromConfig ⟨Router.mk' output serverRoot, recorder⟩
    some (some st)

/-! ## `main` -/

/-- What `main` does to the outside, in order. -/
inductive ServerEvent where
  | construct (port : Int) (threads : Nat)
  | createRouter (config : NginxConfig) (serverRoot : Bytes)
  | startAccept (router : Router)
  | run (threads : Nat)

/-- How `main` ends: with an exit code, serving connections, or in undefined
behaviour. -/
inductive MainOutcome where
  | exit (code : Nat)
  | serving
  | undefined
  deriving DecidableEq, Repr

/-- One run of `main`. -/
structure MainRun where
  events : List ServerEvent
  outcome : MainOutcome

/-- `main`, started with `argc - 1` arguments of which the first names `file`.
`canBind` says whether an acceptor for the port can be opened. Exceptions are
caught at the end of `main`, which then returns 0. -/
def serverMain (argc : Nat) (file : Option Bytes) (canBind : Int → Bool)
    (recorder : StatusRecorder) : MainRun :=
  if argc ≠ 2 then ⟨[], .exit 1⟩
  else
    -- the flag in `(parseFile file []).1` is dropped
    let config := (parseFile file []).2
    if (parseStatements config).1 = false then ⟨[], .exit 1⟩
    else
      let settings := (parseStatements config).2
      match settings.port with
      | none => ⟨[], .undefined⟩
      | some port =>
        -- the constructor of the server opens the acceptor, and throws if it cannot
        if canBind port = false then ⟨[], .exit 0⟩
        else
          let events := [.construct port settings.threadCount, .createRouter config settings.root]
          match createRouter config settings.root recorder with
          | none => ⟨events, .undefined⟩
          -- `main` throws when there is no router block
          | some none => ⟨events, .exit 0⟩
          | some (some st) =>
            ⟨events ++ [.startAccept st.router, .run settings.threadCount], .serving⟩

/-! ## A malformed configuration -/

/-- The event needs a config that was parsed. -/
def ServerEvent.Serves : ServerEvent → Prop
  | .construct _ _ => False
  | _ => True

/-- A malformed config is never served: on a file that `Parse` rejects `main`
exits without creating a router or accepting connections, and the tree it
creates a router from is the tree of a whole file that `Parse` accepted. -/
structure MalformedNeverServed (file : Option Bytes) (canBind : Int → Bool)
    (recorder : StatusRecorder) : Prop where
  rejected : (parseFile file []).1 = false →
    (∃ code, (serverMain 2 file canBind recorder).outcome = .exit code) ∧
      ∀ e ∈ (serverMain 2 file canBind recorder).events, ¬ e.Serves
  whole : ∀ c root, .createRouter c root ∈ (serverMain 2 file canBind recorder).events →
    parseFile file [] = (true, c)

/-- The config gets past the checks that `main` makes before it creates a router. -/
def PassesChecks (config : NginxConfig) (canBind : Int → Bool) : Prop :=
  (parseStatements config).1 = true ∧
    ∀ port, (parseStatements config).2.port = some port → canBind port = true

/-- A config that does not get past the checks is not served. -/
theorem serverMain_refused {file : Option Bytes} {canBind : Int → Bool}
    (h : ¬ PassesChecks (parseFile file []).2 canBind) (recorder : StatusRecorder) :
    ∃ code, serverMain 2 file canBind recorder = ⟨[], .exit code⟩ := by
  unfold serverMain
  rw [if_neg (by simp)]
  dsimp only
  split_ifs with hfound
  · exact ⟨1, rfl⟩
  · obtain ⟨port, hport, -⟩ := (parseStatements_inRange (parseFile file []).2).1
      (Bool.eq_true_of_not_eq_false hfound)
    have hbind : canBind port = false := by
      refine Bool.eq_false_iff.mpr fun hbind => h ⟨Bool.eq_true_of_not_eq_false hfound, ?_⟩
      intro port' hport'
      rwa [Option.some.inj (hport'.symm.trans hport)]
    simp only [hport, hbind, if_true]
    exact ⟨0, rfl⟩

/-- A config that gets past the checks is the one a router is created from. -/
theorem serverMain_createRouter {file : Option Bytes} {canBind : Int → Bool}
    (h : PassesChecks (parseFile file []).2 canBind) (recorder : StatusRecorder) (c : NginxConfig)
    (root : Bytes) :
    .createRouter c root ∈ (serverMain 2 file canBind recorder).events ↔
      c = (parseFile file []).2 ∧ root = (parseStatements (parseFile file []).2).2.root := by
  obtain ⟨port, hport, -⟩ := (parseStatements_inRange (parseFile file []).2).1 h.1
  unfold serverMain
  simp only [ne_eq, not_true_eq_false, if_false, h.1, Bool.true_eq_false, hport, h.2 port hport]
  split <;> simp

/-- **Exactly when a malformed config is never served**: `Parse` accepts the
file, or the statements it read before it gave up hold no usable port, or the
acceptor cannot be opened. -/
theorem malformedNeverServed_iff (file : Option Bytes) (canBind : Int → Bool)
    (recorder : StatusRecorder) :
    MalformedNeverServed file canBind recorder ↔
      (parseFile file []).1 = true ∨ ¬ PassesChecks (parseFile file []).2 canBind := by
  constructor
  · intro h
    by_contra hnot
    rw [not_or, not_not] at hnot
    obtain ⟨hfalse, hpass⟩ := hnot
    have hwhole := h.whole _ _ ((serverMain_createRouter hpass recorder _ _).mpr ⟨rfl, rfl⟩)
    exact hfalse (congrArg Prod.fst hwhole)
  · rintro (htrue | hrefused)
    · refine ⟨fun hfalse => by simp [htrue] at hfalse, fun c root hmem => ?_⟩
      by_cases hpass : PassesChecks (parseFile file []).2 canBind
      · rw [((serverMain_createRouter hpass recorder c root).mp hmem).1, ← htrue]
      · obtain ⟨code, hrun⟩ := serverMain_refused hpass recorder
        rw [hrun] at hmem
        contradiction
    · obtain ⟨code, hrun⟩ := serverMain_refused hrefused recorder
      refine ⟨fun _ => ⟨⟨code, by rw [hrun]⟩, by simp [hrun]⟩, fun c root hmem => ?_⟩
      rw [hrun] at hmem
      contradiction

/-- A file cut off before the last `}`: `Parse` rejects it, and the router is
created from the statements read before. -/
theorem truncated_config_served :
    ¬ MalformedNeverServed
      (some "port 80;\nrouter \x7b\n  handler echo \x7b\n    location /echo;\n  \x7d\n")
      (fun _ => true) ⟨[], []⟩ := by
  intro h
  have hpass : PassesChecks (parseFile
      (some "port 80;\nrouter \x7b\n  handler echo \x7b\n    location /echo;\n  \x7d\n") []).2
      (fun _ => true) := ⟨by decide, fun _ _ => rfl⟩
  have hwhole := h.whole _ _ ((serverMain_createRouter hpass ⟨[], []⟩ _ _).mpr ⟨rfl, rfl⟩)
  exact absurd (congrArg Prod.fst hwhole) (by decide)

end GittyUp
