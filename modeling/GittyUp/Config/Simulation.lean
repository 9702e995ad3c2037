import GittyUp.Config.Grammar

/-!
# `Parse` simulates the zipper

The parser of `Config/Parser.lean` keeps one tree and a stack of pointers into
it; the zipper of `Config/Grammar.lean` keeps the tree cut open along the
pointers. `Represents` relates the two: the tree is the zipper closed up again
(`plug`), every pointer is the path to the block its frame left (`path`), and
the brace counter is the number of frames. Each `ParseToken` result is then one
`Zipper.feed`, and a token the zipper rejects ends the loop with `false`.
-/

namespace GittyUp

open Lib

/-! ## Pointers along the open blocks -/

/-- Close a zipper context around the statements of its innermost block. -/
def plug : List (NginxConfig × List Bytes) → NginxConfig → NginxConfig
  | [], c => c
  | (closed, opened) :: context, c => plug context (closed ++ [.mk opened (some c)])

/-- The path to the innermost open block. -/
def path : List (NginxConfig × List Bytes) → Path
  | [] => []
  | (closed, _) :: context => path context ++ [closed.length]

/-- The paths to all open blocks, innermost first. -/
def pathStack : List (NginxConfig × List Bytes) → List Path
  | [] => [[]]
  | frame :: context => path (frame :: context) :: pathStack context

@[simp] theorem pathStack_head (context : List (NginxConfig × List Bytes)) :
    (pathStack context).headD [] = path context := by
  cases context <;> rfl

theorem modifyAt_append (f : NginxConfig → NginxConfig) (p q : Path) :
    ∀ c : NginxConfig, NginxConfig.modifyAt f (p ++ q) c =
      NginxConfig.modifyAt (NginxConfig.modifyAt f q) p c := by
  induction p with
  | nil => exact fun _ => rfl
  | cons i p ih =>
    intro c
    simp only [List.cons_append, NginxConfig.modifyAt]
    congr 1
    funext s
    congr 2
    exact funext ih

theorem getAt_append (p q : Path) :
    ∀ c : NginxConfig, NginxConfig.getAt (p ++ q) c =
      (NginxConfig.getAt p c).bind (NginxConfig.getAt q) := by
  induction p with
  | nil => exact fun _ => rfl
  | cons i p ih =>
    intro c
    simp only [List.cons_append, NginxConfig.getAt, Option.bind_eq_bind, Option.bind_assoc, ih]

theorem modifyAt_length (f : NginxConfig → NginxConfig) (closed c : NginxConfig)
    (opened : List Bytes) :
    NginxConfig.modifyAt f [closed.length] (closed ++ [.mk opened (some c)]) =
      closed ++ [.mk opened (some (f c))] := by
  simp only [NginxConfig.modifyAt]
  induction closed with
  | nil => rfl
  | cons s closed ih =>
    simp only [List.cons_append, List.length_cons, List.modify_succ_cons, ih]

/-- Following the path of a context leads to the block it was cut at. -/
@[simp] theorem modifyAt_path_plug (f : NginxConfig → NginxConfig)
    (context : List (NginxConfig × List Bytes)) (c : NginxConfig) :
    NginxConfig.modifyAt f (path context) (plug context c) = plug context (f c) := by
  induction context generalizing f c with
  | nil => rfl
  | cons frame context ih =>
    obtain ⟨closed, opened⟩ := frame
    rw [path, modifyAt_append, plug, ih, modifyAt_length]
    rfl

@[simp] theorem getAt_path_plug (context : List (NginxConfig × List Bytes)) (c : NginxConfig) :
    NginxConfig.getAt (path context) (plug context c) = some c := by
  induction context generalizing c with
  | nil => rfl
  | cons frame context ih =>
    obtain ⟨closed, opened⟩ := frame
    rw [path, getAt_append, plug, ih]
    simp [NginxConfig.getAt]

/-! ## The simulation relation -/

/-- The statements of the innermost block as the parser stores them: the words
read so far are the tokens of its last statement. -/
def Zipper.current (z : Zipper) : NginxConfig :=
  if z.opened = [] then z.closed else z.closed ++ [.mk z.opened none]

/-- The type of a config token as `ParseToken` returns it. -/
def ConfigToken.type : ConfigToken → TokenType
  | .word _ => .normal
  | .semicolon => .statementEnd
  | .openBrace => .startBlock
  | .closeBrace => .endBlock

/-- The tree of the parser state `st` is the zipper `z` closed up, and the stack and the
counter are where `z` is cut open. -/
structure Cuts (st : ParserState) (z : Zipper) : Prop where
  config : st.config = plug z.context z.current
  stack : st.configStack = pathStack z.context
  braces : st.startBlock = z.context.length
  normal : st.lastTokenType = .normal ↔ z.opened ≠ []

namespace Cuts

variable {st : ParserState} {z : Zipper}

theorem top (h : Cuts st z) : st.top = path z.context := by
  rw [ParserState.top, h.stack, pathStack_head]

theorem getAt_top (h : Cuts st z) : NginxConfig.getAt st.top st.config = some z.current := by
  rw [h.top, h.config, getAt_path_plug]

/-- A word joins the unfinished statement, or starts one. -/
theorem word (h : Cuts st z) (w : Bytes) :
    Cuts { (if st.lastTokenType ≠ .normal then st.emplaceBack else st).pushBackToken w with
      lastTokenType := .normal } { z with opened := z.opened ++ [w] } := by
  obtain ⟨context, closed, opened⟩ := z
  by_cases ho : opened = []
  · -- a new statement is appended before its first token is pushed
    subst ho
    have hlast : st.lastTokenType ≠ .normal := fun hn => h.normal.mp hn rfl
    rw [if_pos hlast]
    refine ⟨?_, h.stack, h.braces, by simp⟩
    show NginxConfig.modifyAt _ st.top (NginxConfig.modifyAt _ st.top st.config) = _
    rw [h.top, h.config]
    simp [Zipper.current]
  · have hlast : ¬ st.lastTokenType ≠ .normal := not_not.mpr (h.normal.mpr ho)
    rw [if_neg hlast]
    refine ⟨?_, h.stack, h.braces, by simp⟩
    show NginxConfig.modifyAt _ st.top st.config = _
    rw [h.top, h.config]
    simp [Zipper.current, ho]

/-- The unfinished statement is finished as it is. -/
theorem semicolon (h : Cuts st z) (ho : z.opened ≠ []) :
    Cuts { st with lastTokenType := .statementEnd }
      ⟨z.context, z.closed ++ [.mk z.opened none], []⟩ :=
  ⟨by simpa [Zipper.current, ho] using h.config, h.stack, h.braces, by simp⟩

/-- The new pointer leads into the statement at the back of the current block. -/
theorem openBrace (h : Cuts st z) (ho : z.opened ≠ []) :
    Cuts { ({ st with startBlock := st.startBlock + 1 } : ParserState).openChildBlock with
      lastTokenType := .startBlock } ⟨(z.closed, z.opened) :: z.context, [], []⟩ := by
  refine ⟨?_, ?_, ?_, by simp⟩
  · show NginxConfig.modifyAt _ st.top st.config = _
    rw [h.top, h.config, modifyAt_path_plug]
    simp [Zipper.current, ho, plug]
  · have hcur : z.current.length - 1 = z.closed.length := by simp [Zipper.current, ho]
    show (st.top ++ [((NginxConfig.getAt st.top st.config).getD []).length - 1]) ::
      st.configStack = _
    rw [h.getAt_top, Option.getD_some, hcur, h.top, h.stack]
    rfl
  · show st.startBlock + 1 = _
    rw [h.braces]
    simp

/-- The tree does not change, only where the zipper cuts it open. -/
theorem closeBrace {closed closed' : NginxConfig} {opened' : List Bytes}
    {context : List (NginxConfig × List Bytes)}
    (h : Cuts st ⟨(closed', opened') :: context, closed, []⟩) :
    Cuts { ({ st with startBlock := st.startBlock - 1 } : ParserState).pop with
      lastTokenType := .endBlock } ⟨context, closed' ++ [.mk opened' (some closed)], []⟩ := by
  refine ⟨?_, ?_, ?_, by simp⟩
  · show st.config = _
    rw [h.config]
    simp [Zipper.current, plug]
  · show st.configStack.tail = _
    rw [h.stack]
    rfl
  · show st.startBlock - 1 = _
    rw [h.braces]
    simp

end Cuts

/-- The parser state `st` is the zipper `z`. -/
structure Represents (st : ParserState) (z : Zipper) : Prop extends Cuts st z where
  ended : (st.lastTokenType = .statementEnd ∨ st.lastTokenType = .endBlock) ↔
    z.opened = [] ∧ z.closed ≠ []
  read : st.lastTokenType ≠ .comment ∧ st.lastTokenType ≠ .eof ∧ st.lastTokenType ≠ .error

namespace Represents

theorem init : Represents (.init []) .init := by
  refine ⟨⟨?_, ?_, ?_, ?_⟩, ?_, ?_⟩ <;>
    simp [ParserState.init, Zipper.init, plug, pathStack, Zipper.current]

/-- The parser takes a word wherever it is. -/
theorem word {st : ParserState} {z : Zipper} (h : Represents st z) (w : Bytes) :
    ∃ st', parseStep st .normal w = .next st' ∧
      Represents st' { z with opened := z.opened ++ [w] } := by
  have htype : st.lastTokenType = .start ∨ st.lastTokenType = .statementEnd ∨
      st.lastTokenType = .startBlock ∨ st.lastTokenType = .endBlock ∨
      st.lastTokenType = .normal := by
    obtain ⟨hc, he, herr⟩ := h.read
    cases hlast : st.lastTokenType <;> simp_all
  unfold parseStep
  dsimp only
  rw [if_pos htype]
  exact ⟨_, rfl, h.toCuts.word w, by simp, by simp⟩

/-- The test that the parser makes before a `}` and at the end of the file. -/
theorem not_ended_iff {st : ParserState} {z : Zipper} (h : Represents st z) :
    (st.lastTokenType ≠ .statementEnd ∧ st.lastTokenType ≠ .endBlock) ↔
      ¬ (z.opened = [] ∧ z.closed ≠ []) := by
  rw [← h.ended, not_or]

/-- It takes a `{` behind a word. -/
theorem openBrace {st : ParserState} {z : Zipper} (h : Represents st z) (ho : z.opened ≠ [])
    (value : Bytes) : ∃ st', parseStep st .startBlock value = .next st' ∧
      Represents st' ⟨(z.closed, z.opened) :: z.context, [], []⟩ := by
  have hlast : ¬ st.lastTokenType ≠ .normal := not_not.mpr (h.normal.mpr ho)
  rw [parseStep, if_neg hlast]
  exact ⟨_, rfl, h.toCuts.openBrace ho, by simp, by simp⟩

/-- It takes a `}` behind a statement if a block is open. -/
theorem closeBrace {st : ParserState} {closed closed' : NginxConfig} {opened' : List Bytes}
    {context : List (NginxConfig × List Bytes)}
    (h : Represents st ⟨(closed', opened') :: context, closed, []⟩) (hc : closed ≠ [])
    (value : Bytes) : ∃ st', parseStep st .endBlock value = .next st' ∧
      Represents st' ⟨context, closed' ++ [.mk opened' (some closed)], []⟩ := by
  have hlast := mt h.not_ended_iff.mp (not_not.mpr ⟨rfl, hc⟩)
  have hbraces := h.braces
  have hopen : ¬ st.startBlock - 1 < 0 := by
    simp only [List.length_cons] at hbraces
    omega
  rw [parseStep, if_neg hlast]
  dsimp only
  rw [if_neg hopen]
  exact ⟨_, rfl, h.toCuts.closeBrace, by simp, by simp⟩

/-- **One token**: the parser goes on exactly when the zipper can read the
token, and the states stay related. -/
theorem step {st : ParserState} {z : Zipper} (h : Represents st z) (t : ConfigToken)
    (value : Bytes) (hvalue : ∀ w, t = .word w → value = w) :
    match z.feed t with
    | some z' => ∃ st', parseStep st t.type value = .next st' ∧ Represents st' z'
    | none => ∃ st', parseStep st t.type value = .fail st' := by
  cases t with
  | word w =>
    rw [hvalue w rfl]
    exact h.word w
  | semicolon =>
    simp only [Zipper.feed, ConfigToken.type, parseStep]
    by_cases ho : z.opened = []
    · have hlast : st.lastTokenType ≠ .normal := fun hn => h.normal.mp hn ho
      simp [ho, hlast]
    · have hlast := h.normal.mpr ho
      simp only [ho, hlast, if_false, ne_eq, not_true_eq_false, LoopStep.next.injEq,
        exists_eq_left']
      exact ⟨h.toCuts.semicolon ho, by simp, by simp⟩
  | openBrace =>
    by_cases ho : z.opened = []
    · have hlast : st.lastTokenType ≠ .normal := fun hn => h.normal.mp hn ho
      simp [Zipper.feed, ConfigToken.type, parseStep, ho, hlast]
    · simp only [Zipper.feed, ho, if_false]
      exact h.openBrace ho value
  | closeBrace =>
    by_cases he : z.opened = [] ∧ z.closed ≠ []
    · obtain ⟨context, closed, opened⟩ := z
      obtain ⟨rfl, hc⟩ : opened = [] ∧ closed ≠ [] := he
      simp only [Zipper.feed, hc, ne_eq, not_true_eq_false, or_self, if_false]
      cases context with
      | nil =>
        -- no block is open: the counter would become negative
        have hlast := mt h.not_ended_iff.mp (not_not.mpr ⟨rfl, hc⟩)
        have hbraces : st.startBlock = 0 := h.braces
        simp [ConfigToken.type, parseStep, hlast, hbraces]
      | cons frame context => exact h.closeBrace hc value
    · have hlast := h.not_ended_iff.mpr he
      have hz : z.opened ≠ [] ∨ z.closed = [] := by tauto
      simp [Zipper.feed, ConfigToken.type, parseStep, hlast, hz]

/-- The end of the file is accepted where the zipper is between two statements
of the outermost block, after at least one; the tree is then the zipper's. -/
theorem eof {st : ParserState} {z : Zipper} (h : Represents st z) (value : Bytes) :
    if z.context = [] ∧ z.opened = [] ∧ z.closed ≠ [] then
      ∃ st', parseStep st .eof value = .accept st' ∧ st'.config = z.closed
    else ∃ st', parseStep st .eof value = .fail st' := by
  obtain ⟨context, closed, opened⟩ := z
  simp only [parseStep]
  by_cases he : opened = [] ∧ closed ≠ []
  · obtain ⟨rfl, hc⟩ := he
    have hlast := mt h.not_ended_iff.mp (not_not.mpr ⟨rfl, hc⟩)
    have hbraces := h.braces
    simp only [hlast, if_false]
    cases context with
    | nil =>
      have : st.startBlock = 0 := by simpa using hbraces
      have hconfig := h.config
      simp only [Zipper.current, plug, if_true] at hconfig
      simp [this, hc, hconfig]
    | cons frame context =>
      have : st.startBlock ≠ 0 := by
        simp only [List.length_cons] at hbraces
        omega
      simp [this]
  · have hlast := h.not_ended_iff.mpr he
    have hno : ¬ (context = [] ∧ opened = [] ∧ closed ≠ []) := by tauto
    rw [if_pos hlast, if_neg hno]
    exact ⟨st, rfl⟩

end Represents

end GittyUp
