import GittyUp.Lib.Bytes

/-!
# The parsed configuration (`config_parser.h`)

`NginxConfig` and `NginxConfigStatement` are trees: a config is a list of
statements, a statement is a list of tokens with an optional nested config.
This file gives the two types, their induction principle, the printer
`ToString`, and the accessors by which the parser mutates a config in place.

The private fields `port_`, `threadCount_` and `root_` of an `NginxConfig` are
written by `ParseStatements` only; they are that function's result
(`Config/Settings.lean`).
-/

namespace GittyUp

open Lib

/-- `class NginxConfigStatement`: `tokens_` and `child_block_`, the latter null
(`none`) or a nested config. -/
inductive NginxConfigStatement where
  | mk (tokens : List Bytes) (childBlock : Option (List NginxConfigStatement))

/-- `class NginxConfig`: its `statements_`. -/
abbrev NginxConfig := List NginxConfigStatement

namespace NginxConfigStatement

/-- `tokens_`. -/
def tokens : NginxConfigStatement → List Bytes
  | .mk tokens _ => tokens

/-- `child_block_`. -/
def childBlock : NginxConfigStatement → Option NginxConfig
  | .mk _ childBlock => childBlock

@[simp] theorem tokens_mk (ts : List Bytes) (c : Option NginxConfig) :
    (mk ts c).tokens = ts := rfl

@[simp] theorem childBlock_mk (ts : List Bytes) (c : Option NginxConfig) :
    (mk ts c).childBlock = c := rfl

end NginxConfigStatement

/-- Induction over a config and its statements together: a statement is a leaf
or carries a block, a config is empty or a statement followed by a config. -/
theorem NginxConfig.induct (motiveS : NginxConfigStatement → Prop)
    (motiveC : NginxConfig → Prop)
    (leaf : ∀ ts, motiveS (.mk ts none))
    (block : ∀ ts c, motiveC c → motiveS (.mk ts (some c)))
    (nil : motiveC [])
    (cons : ∀ s c, motiveS s → motiveC c → motiveC (s :: c)) :
    ∀ c, motiveC c := by
  intro c
  refine @NginxConfigStatement.rec_2 motiveS (fun o => ∀ c, o = some c → motiveC c) motiveC
    (fun ts o h => ?_) (fun _ h => nomatch h)
    (fun c hc _ h => Option.some.inj h ▸ hc) nil cons c
  cases o with
  | none => exact leaf ts
  | some c => exact block ts c (h c rfl)

/-! ## `ToString` -/

/-- `depth` times two spaces. -/
def indent : Nat → Bytes
  | 0 => []
  | depth + 1 => lit "  " ++ indent depth

/-- The tokens of one statement, a space before every one but the first. -/
def joinTokens : List Bytes → Bytes
  | [] => []
  | t :: ts => t ++ ts.flatMap fun u => lit " " ++ u

mutual

/-- `NginxConfigStatement::ToString`. -/
def NginxConfigStatement.toString (depth : Nat) : NginxConfigStatement → Bytes
  | .mk tokens none =>
    indent depth ++ joinTokens tokens ++ lit ";" ++ lit "\n"
  | .mk tokens (some child) =>
    indent depth ++ joinTokens tokens ++ lit " \x7b\n" ++
      NginxConfig.toString (depth + 1) child ++
      indent depth ++ lit "\x7d" ++ lit "\n"

/-- `NginxConfig::ToString`. -/
def NginxConfig.toString (depth : Nat) : NginxConfig → Bytes
  | [] => []
  | statement :: rest => statement.toString depth ++ NginxConfig.toString depth rest

end

/-! ## Mutation in place

The parser holds raw pointers to configs that live inside the tree it builds.
A pointer is the path from the root: the index of the statement whose child
block to enter, level by level. Paths stay valid because statements are only
ever appended. -/

/-- A pointer to a nested config (the empty path is the root). -/
abbrev Path := List Nat

/-- Apply `f` to the last statement of a config. -/
def NginxConfig.modifyBack (f : NginxConfigStatement → NginxConfigStatement) :
    NginxConfig → NginxConfig
  | [] => []
  | [s] => [f s]
  | s :: rest => s :: NginxConfig.modifyBack f rest

/-- Apply `f` to the config that `path` points to. -/
def NginxConfig.modifyAt (f : NginxConfig → NginxConfig) :
    Path → NginxConfig → NginxConfig
  | [], c => f c
  | i :: path, c =>
    c.modify i fun s => .mk s.tokens (s.childBlock.map (NginxConfig.modifyAt f path))

/-- The config that `path` points to (`none` for a dangling pointer). -/
def NginxConfig.getAt : Path → NginxConfig → Option NginxConfig
  | [], c => some c
  | i :: path, conf => do
    let s ← conf[i]?
    let child ← s.childBlock
    NginxConfig.getAt path child

@[simp] theorem NginxConfig.modifyBack_append (f : NginxConfigStatement → NginxConfigStatement)
    (c : NginxConfig) (s : NginxConfigStatement) :
    NginxConfig.modifyBack f (c ++ [s]) = c ++ [f s] := by
  induction c with
  | nil => rfl
  | cons s' c ih =>
    cases c with
    | nil => rfl
    | cons s'' c =>
      show s' :: NginxConfig.modifyBack f ((s'' :: c) ++ [s]) = _
      rw [ih]
      rfl

end GittyUp
