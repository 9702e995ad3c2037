import GittyUp.Config.Simulation
import GittyUp.Lib.Transition
import Mathlib.Data.List.Chain
import Mathlib.Data.List.Nodup

/-!
# The stack of open blocks (`NginxConfigParser::Parse`)

`Parse` calls `top()`, `pop()` and `back()` on the strength of the brace counter
and of the last token's type alone. `parseStepChecked` is its loop body with
these calls checked; `parser_stack_safe`: on any input, in every iteration, the
stack leads from the given config through the open blocks, and no check fails.
-/

namespace GittyUp

open Lib

/-! ## The loop body with its calls checked -/

namespace ParserState

/-- `*config_stack.top()`: `none` for an empty stack or a dangling pointer. -/
def top? (st : ParserState) : Option NginxConfig := do
  let pointer ← st.configStack.head?
  NginxConfig.getAt pointer st.config

/-- `config_stack.top()->statements_.back()`: also `none` without a statement. -/
def back? (st : ParserState) : Option NginxConfigStatement := do
  let config ← st.top?
  config.getLast?

end ParserState

/-- `parseStep`, but `none` where it would call `top()`, `pop()` or `back()` on an
empty container. -/
def parseStepChecked (st : ParserState) (tokenType : TokenType) (token : Bytes) :
    Option LoopStep :=
  match tokenType with
  | .normal =>
    if st.lastTokenType = .start ∨ st.lastTokenType = .statementEnd ∨
        st.lastTokenType = .startBlock ∨ st.lastTokenType = .endBlock ∨
        st.lastTokenType = .normal then do
      let _ ← st.top?
      let st' := if st.lastTokenType ≠ .normal then st.emplaceBack else st
      let _ ← st'.back?
      some (.next { st'.pushBackToken token with lastTokenType := .normal })
    else some (.fail st)
  | .startBlock =>
    if st.lastTokenType ≠ .normal then some (.fail st)
    else do
      let st' := { st with startBlock := st.startBlock + 1 }
      let _ ← st'.back?
      some (.next { st'.openChildBlock with lastTokenType := .startBlock })
  | .endBlock =>
    if st.lastTokenType ≠ .statementEnd ∧ st.lastTokenType ≠ .endBlock then some (.fail st)
    else
      let st' := { st with startBlock := st.startBlock - 1 }
      if st'.startBlock < 0 then some (.fail st')
      else do
        let _ ← st'.configStack.head?
        some (.next { st'.pop with lastTokenType := .endBlock })
  -- the other tokens touch neither the stack nor the tree
  | _ => some (parseStep st tokenType token)

/-! ## What the stack looks like -/

/-- `child` points to the child block of the last statement of the config that `parent`
points to. -/
def ChildOfLast (config : NginxConfig) (child parent : Path) : Prop :=
  ∃ before statement block,
    NginxConfig.getAt parent config = some (before ++ [statement]) ∧
      statement.childBlock = some block ∧ child = parent ++ [before.length] ∧
        NginxConfig.getAt child config = some block

/-- The stack is as deep as the brace counter says, and leads from the config that is
parsed through one last statement after the other; behind a word, the last statement
of the innermost block has a token. -/
structure StackSafe (st : ParserState) : Prop where
  counter : 0 ≤ st.startBlock
  depth : (st.configStack.length : Int) = st.startBlock + 1
  distinct : st.configStack.Nodup
  bottom : st.configStack.getLast? = some []
  linked : st.configStack.IsChain (ChildOfLast st.config)
  back : st.lastTokenType = .normal → ∃ statement, st.back? = some statement ∧ statement.tokens ≠ []

theorem path_length (context : List (NginxConfig × List Bytes)) :
    (path context).length = context.length := by
  induction context with
  | nil => rfl
  | cons frame context ih => rw [path, List.length_append, ih]; rfl

theorem pathStack_length (context : List (NginxConfig × List Bytes)) :
    (pathStack context).length = context.length + 1 := by
  induction context with
  | nil => rfl
  | cons frame context ih => rw [pathStack, List.length_cons, ih, List.length_cons]

theorem length_le_of_mem_pathStack {context : List (NginxConfig × List Bytes)} {p : Path}
    (h : p ∈ pathStack context) : p.length ≤ context.length := by
  induction context with
  | nil =>
    rw [List.mem_singleton.mp h]
    exact Nat.zero_le _
  | cons frame context ih =>
    rcases List.mem_cons.mp h with rfl | h
    · rw [path_length]
    · exact Nat.le_succ_of_le (ih h)

/-- Pointers to different depths differ. -/
theorem pathStack_nodup (context : List (NginxConfig × List Bytes)) :
    (pathStack context).Nodup := by
  induction context with
  | nil => exact List.nodup_singleton _
  | cons frame context ih =>
    refine List.nodup_cons.mpr ⟨fun hmem => ?_, ih⟩
    have := length_le_of_mem_pathStack hmem
    rw [path_length, List.length_cons] at this
    omega

theorem pathStack_head? (context : List (NginxConfig × List Bytes)) :
    (pathStack context).head? = some (path context) := by
  cases context <;> rfl

theorem pathStack_getLast? (context : List (NginxConfig × List Bytes)) :
    (pathStack context).getLast? = some [] := by
  induction context with
  | nil => rfl
  | cons frame context ih => rw [pathStack, List.getLast?_cons, ih, Option.getD_some]

/-- Each pointer leads into the statement that its context is cut open at. -/
theorem pathStack_isChain (context : List (NginxConfig × List Bytes)) (c : NginxConfig) :
    (pathStack context).IsChain (ChildOfLast (plug context c)) := by
  induction context generalizing c with
  | nil => exact .singleton _
  | cons frame context ih =>
    refine List.isChain_cons.mpr ⟨fun parent hparent => ?_, ih _⟩
    rw [pathStack_head?, Option.mem_some_iff] at hparent
    subst hparent
    exact ⟨frame.1, .mk frame.2 (some c), c, getAt_path_plug _ _, rfl, rfl,
      getAt_path_plug (frame :: context) c⟩

/-! ## Every iteration is safe -/

namespace Cuts

variable {st : ParserState} {z : Zipper}

theorem top?_eq (h : Cuts st z) : st.top? = some z.current := by
  have hget := h.getAt_top
  rw [h.top] at hget
  rw [ParserState.top?, h.stack, pathStack_head?]
  exact hget

/-- Behind a word, `back()` is the unfinished statement. -/
theorem back?_eq (h : Cuts st z) (ho : z.opened ≠ []) :
    st.back? = some (.mk z.opened none) := by
  rw [ParserState.back?, h.top?_eq]
  simp [Zipper.current, ho]

theorem stackSafe (h : Cuts st z) : StackSafe st where
  counter := by rw [h.braces]; exact Int.natCast_nonneg _
  depth := by rw [h.stack, pathStack_length, h.braces]; rfl
  distinct := h.stack ▸ pathStack_nodup z.context
  bottom := by rw [h.stack, pathStack_getLast?]
  linked := by rw [h.stack, h.config]; exact pathStack_isChain z.context z.current
  back hnormal := ⟨_, h.back?_eq (h.normal.mp hnormal), h.normal.mp hnormal⟩

/-- Before the first token of a statement is pushed, `back()` is that statement. -/
theorem emplaceBack_back? (h : Cuts st z) : st.emplaceBack.back? = some (.mk [] none) := by
  have hconfig : st.emplaceBack.config = plug z.context (z.current ++ [.mk [] none]) := by
    show NginxConfig.modifyAt _ st.top st.config = _
    rw [h.top, h.config, modifyAt_path_plug]
  have hstack : st.emplaceBack.configStack = pathStack z.context := h.stack
  simp [ParserState.back?, ParserState.top?, hstack, pathStack_head?, hconfig]

/-- The checked calls succeed. -/
theorem checked (h : Cuts st z) (tokenType : TokenType) (token : Bytes) :
    parseStepChecked st tokenType token = some (parseStep st tokenType token) := by
  cases tokenType with
  | normal =>
    unfold parseStepChecked parseStep
    dsimp only
    split_ifs with hlast hnormal
    · rw [h.top?_eq, h.emplaceBack_back?]
      rfl
    · rw [h.top?_eq, h.back?_eq (h.normal.mp (not_not.mp hnormal))]
      rfl
    · rfl
  | startBlock =>
    unfold parseStepChecked parseStep
    dsimp only
    split_ifs with hlast
    · rfl
    · have hback := h.back?_eq (h.normal.mp (not_not.mp hlast))
      change ({ st with startBlock := st.startBlock + 1 } : ParserState).back? = _ at hback
      rw [hback]
      rfl
  | endBlock =>
    unfold parseStepChecked parseStep
    dsimp only
    split_ifs with hlast hnegative
    · rfl
    · rfl
    · rw [h.stack, pathStack_head?]
      rfl
  | _ => rfl

/-- **One iteration** goes on to a state that is cut open in turn. -/
theorem next (h : Cuts st z) {tokenType : TokenType} {token : Bytes} {st' : ParserState}
    (hnext : parseStep st tokenType token = .next st') : ∃ z', Cuts st' z' := by
  cases parseStep_next hnext with
  | comment => exact ⟨z, h⟩
  | normal => exact ⟨_, h.word token⟩
  | statementEnd hlast => exact ⟨_, h.semicolon (h.normal.mp hlast)⟩
  | startBlock hlast => exact ⟨_, h.openBrace (h.normal.mp hlast)⟩
  | endBlock hlast hopen =>
    obtain ⟨context, closed, opened⟩ := z
    obtain rfl : opened = [] := not_not.mp (mt h.normal.mpr hlast)
    cases context with
    | nil =>
      -- no block is open
      have hbraces : st.startBlock = 0 := h.braces
      omega
    | cons frame context => exact ⟨_, h.closeBrace⟩

end Cuts

/-- An iteration that goes on to the next one: parser state and unread bytes before
and after. -/
def Iteration (s s' : ParserState × Bytes) : Prop :=
  parseStep s.1 (parseToken s.2).type (parseToken s.2).value = .next s'.1 ∧
    (parseToken s.2).rest = s'.2

/-- What is left to do in an iteration is what `Parse` does. -/
theorem parse_eq_of_reachable {input : Bytes} {config : NginxConfig} {s : ParserState × Bytes}
    (h : Reachable Iteration (.init config, input) s) :
    parse input config = parseFrom s.1 s.2 := by
  refine h.invariant (P := fun s => parse input config = parseFrom s.1 s.2)
    (parse_eq input config) fun s s' hs hstep => ?_
  rw [hs, parseFrom_eq, hstep.1, ← hstep.2]

theorem cuts_of_reachable {input : Bytes} {config : NginxConfig} {s : ParserState × Bytes}
    (h : Reachable Iteration (.init config, input) s) : ∃ z, Cuts s.1 z := by
  refine h.invariant (P := fun s => ∃ z, Cuts s.1 z) ⟨⟨[], config, []⟩, ?_⟩ ?_
  · constructor <;> simp [ParserState.init, plug, pathStack, Zipper.current]
  · rintro s s' ⟨z, hz⟩ hstep
    exact hz.next hstep.1

/-- **The parser's stack is safe** in every iteration, on any input: it has the shape
that `StackSafe` says, and `top()`, `pop()` and `back()` are called on no empty
container. -/
theorem parser_stack_safe {input : Bytes} {config : NginxConfig} {st : ParserState} {rest : Bytes}
    (h : Reachable Iteration (.init config, input) (st, rest)) :
    parse input config = parseFrom st rest ∧ StackSafe st ∧
      parseStepChecked st (parseToken rest).type (parseToken rest).value =
        some (parseStep st (parseToken rest).type (parseToken rest).value) := by
  obtain ⟨z, hz⟩ := cuts_of_reachable h
  exact ⟨parse_eq_of_reachable h, hz.stackSafe, hz.checked _ _⟩

/-- Inside of a block, behind its first word. -/
theorem parser_stack_safe_block :
    parse "a\x7bb;" [] =
        parseFrom ⟨[.mk [lit "a"] (some [.mk [lit "b"] none])], [[0], []], .normal, 1⟩ ";" ∧
      StackSafe ⟨[.mk [lit "a"] (some [.mk [lit "b"] none])], [[0], []], .normal, 1⟩ ∧
      parseStepChecked ⟨[.mk [lit "a"] (some [.mk [lit "b"] none])], [[0], []], .normal, 1⟩
          (parseToken ";").type (parseToken ";").value =
        some (parseStep ⟨[.mk [lit "a"] (some [.mk [lit "b"] none])], [[0], []], .normal, 1⟩
          (parseToken ";").type (parseToken ";").value) := by
  have ha : Iteration (.init [], lit "a\x7bb;")
      (⟨[.mk [lit "a"] none], [[]], .normal, 0⟩, lit "\x7bb;") := ⟨rfl, rfl⟩
  have hbrace : Iteration (⟨[.mk [lit "a"] none], [[]], .normal, 0⟩, lit "\x7bb;")
      (⟨[.mk [lit "a"] (some [])], [[0], []], .startBlock, 1⟩, lit "b;") := ⟨rfl, rfl⟩
  have hb : Iteration (⟨[.mk [lit "a"] (some [])], [[0], []], .startBlock, 1⟩, lit "b;")
      (⟨[.mk [lit "a"] (some [.mk [lit "b"] none])], [[0], []], .normal, 1⟩, lit ";") :=
    ⟨rfl, rfl⟩
  exact parser_stack_safe (.head ha (.head hbrace (.head hb .refl)))

end GittyUp
