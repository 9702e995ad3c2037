import GittyUp.Config.Parser
import Mathlib.Data.List.Induction

/-!
# The config grammar, and the parser as a zipper over it

What `Parse` is for, said without pointers: a config text is a sequence of
tokens, and the tokens of a config are those of its statements, each statement
being one or more words followed by `;` or by a non-empty block in braces
(`Statements`, `NginxConfig.flatten`).

- `Zipper`: the abstract parser. Its state is the statements of the innermost
  open block, the words of the statement being read, and the enclosing blocks
  cut open at the statement that owns the block.
- `feedAll_init_iff`: the zipper accepts exactly the flattened trees, and
  rebuilds the tree.

`Config/Simulation.lean` connects the pointer-stack parser to the zipper.
-/

namespace GittyUp

open Lib

/-- The tokens of the config grammar: a word (bare or quoted) or punctuation. -/
inductive ConfigToken where
  | word (text : Bytes)
  | semicolon
  | openBrace
  | closeBrace
  deriving DecidableEq, Repr

/-- How a token is written. -/
def ConfigToken.text : ConfigToken → Bytes
  | .word w => w
  | .semicolon => ";"
  | .openBrace => "\x7b"
  | .closeBrace => "\x7d"

/-- The token sequences of one or more statements. -/
inductive Statements : List ConfigToken → Prop
  | leaf {words : List Bytes} : words ≠ [] →
      Statements (words.map .word ++ [.semicolon])
  | block {words : List Bytes} {body : List ConfigToken} : words ≠ [] →
      Statements body →
      Statements (words.map .word ++ [.openBrace] ++ body ++ [.closeBrace])
  | append {ts us : List ConfigToken} :
      Statements ts → Statements us → Statements (ts ++ us)

mutual

/-- The tokens of one statement, in the order they are written. -/
def NginxConfigStatement.flatten : NginxConfigStatement → List ConfigToken
  | .mk tokens none => tokens.map .word ++ [.semicolon]
  | .mk tokens (some child) =>
    tokens.map .word ++ [.openBrace] ++ NginxConfig.flatten child ++ [.closeBrace]

/-- The tokens of a config, in the order they are written. -/
def NginxConfig.flatten : NginxConfig → List ConfigToken
  | [] => []
  | statement :: rest => statement.flatten ++ NginxConfig.flatten rest

end

mutual

/-- A statement has at least one token, all of its tokens satisfy `P`, and its
child block, if any, is not empty; likewise inside the block. -/
def NginxConfigStatement.WellFormedWith (P : Bytes → Prop) : NginxConfigStatement → Prop
  | .mk tokens none => tokens ≠ [] ∧ ∀ t ∈ tokens, P t
  | .mk tokens (some child) =>
    (tokens ≠ [] ∧ ∀ t ∈ tokens, P t) ∧ child ≠ [] ∧ NginxConfig.AllWellFormedWith P child

/-- Every statement of a config is well formed. -/
def NginxConfig.AllWellFormedWith (P : Bytes → Prop) : NginxConfig → Prop
  | [] => True
  | statement :: rest =>
    statement.WellFormedWith P ∧ NginxConfig.AllWellFormedWith P rest

end

/-- A config of at least one statement, every statement well formed. -/
def NginxConfig.WellFormedWith (P : Bytes → Prop) (c : NginxConfig) : Prop :=
  c ≠ [] ∧ NginxConfig.AllWellFormedWith P c

namespace NginxConfig

@[simp] theorem flatten_append (c d : NginxConfig) :
    flatten (c ++ d) = flatten c ++ flatten d := by
  induction c with
  | nil => rfl
  | cons s c ih =>
    show s.flatten ++ flatten (c ++ d) = s.flatten ++ flatten c ++ flatten d
    rw [ih, List.append_assoc]

@[simp] theorem flatten_singleton (s : NginxConfigStatement) : flatten [s] = s.flatten :=
  List.append_nil _

@[simp] theorem allWellFormedWith_append {P : Bytes → Prop} (c d : NginxConfig) :
    AllWellFormedWith P (c ++ d) ↔ AllWellFormedWith P c ∧ AllWellFormedWith P d := by
  induction c with
  | nil => exact (and_iff_right trivial).symm
  | cons s c ih =>
    show s.WellFormedWith P ∧ AllWellFormedWith P (c ++ d) ↔
      (s.WellFormedWith P ∧ AllWellFormedWith P c) ∧ AllWellFormedWith P d
    rw [ih, and_assoc]

@[simp] theorem allWellFormedWith_singleton {P : Bytes → Prop} (s : NginxConfigStatement) :
    AllWellFormedWith P [s] ↔ s.WellFormedWith P :=
  and_iff_left trivial

/-- Every word of a well-formed tree's token sequence satisfies `P`. -/
theorem AllWellFormedWith.words {P : Bytes → Prop} {c : NginxConfig}
    (h : AllWellFormedWith P c) : ∀ w, .word w ∈ flatten c → P w := by
  revert h
  refine NginxConfig.induct
    (fun s => s.WellFormedWith P → ∀ w, .word w ∈ s.flatten → P w)
    (fun c => AllWellFormedWith P c → ∀ w, .word w ∈ flatten c → P w)
    ?_ ?_ ?_ ?_ c
  · intro ts h w hw
    simp only [NginxConfigStatement.flatten, List.mem_append, List.mem_map,
      List.mem_singleton, reduceCtorEq, or_false, ConfigToken.word.injEq, exists_eq_right] at hw
    exact h.2 w hw
  · intro ts child ih h w hw
    simp only [NginxConfigStatement.flatten, List.mem_append, List.mem_map,
      List.mem_singleton, reduceCtorEq, or_false, ConfigToken.word.injEq, exists_eq_right] at hw
    rcases hw with hw | hw
    · exact h.1.2 w hw
    · exact ih h.2.2 w hw
  · intro _ w hw
    cases hw
  · intro s c ihs ihc h w hw
    rcases List.mem_append.mp hw with hw | hw
    · exact ihs h.1 w hw
    · exact ihc h.2 w hw

/-- A well-formed tree is well formed for every predicate its words satisfy. -/
theorem AllWellFormedWith.of_words {P Q : Bytes → Prop} {c : NginxConfig}
    (h : AllWellFormedWith P c) :
    (∀ w, .word w ∈ flatten c → Q w) → AllWellFormedWith Q c := by
  revert h
  refine NginxConfig.induct
    (fun s => s.WellFormedWith P →
      (∀ w, .word w ∈ s.flatten → Q w) → s.WellFormedWith Q)
    (fun c => AllWellFormedWith P c →
      (∀ w, .word w ∈ flatten c → Q w) → AllWellFormedWith Q c)
    ?_ ?_ ?_ ?_ c
  · intro ts h hw
    exact ⟨h.1, fun t ht => hw t (by simp [NginxConfigStatement.flatten, ht])⟩
  · intro ts child ih h hw
    refine ⟨⟨h.1.1, fun t ht => hw t (by simp [NginxConfigStatement.flatten, ht])⟩,
      h.2.1, ih h.2.2 fun t ht => hw t ?_⟩
    simp [NginxConfigStatement.flatten, ht]
  · exact fun _ _ => trivial
  · intro s c ihs ihc h hw
    exact ⟨ihs h.1 fun w hmem => hw w (List.mem_append_left _ hmem),
      ihc h.2 fun w hmem => hw w (List.mem_append_right _ hmem)⟩

theorem AllWellFormedWith.statement {P : Bytes → Prop} {c : NginxConfig}
    (h : AllWellFormedWith P c) : ∀ s ∈ c, s.WellFormedWith P := by
  induction c with
  | nil => simp
  | cons s c ih => exact List.forall_mem_cons.mpr ⟨h.1, ih h.2⟩

end NginxConfig

theorem NginxConfigStatement.WellFormedWith.keyword {P : Bytes → Prop}
    {s : NginxConfigStatement} (h : s.WellFormedWith P) :
    ∃ keyword, s.tokens[0]? = some keyword := by
  have hne : s.tokens ≠ [] := by
    match s, h with
    | .mk _ none, h => exact h.1
    | .mk _ (some _), h => exact h.1.1
  exact ⟨s.tokens.head hne, by rw [← List.head?_eq_getElem?, List.head?_eq_some_head hne]⟩

theorem NginxConfigStatement.WellFormedWith.child {P : Bytes → Prop}
    {s : NginxConfigStatement} (h : s.WellFormedWith P) {child : NginxConfig}
    (hch : s.childBlock = some child) : child.AllWellFormedWith P := by
  obtain ⟨ts, o⟩ := s
  obtain rfl : o = some child := hch
  exact h.2.2

/-! ## The zipper -/

/-- A config being read: the statements of the innermost open block, the words
of its unfinished statement, and, innermost first, the enclosing blocks, each
cut open at the statement that owns the next block. -/
structure Zipper where
  context : List (NginxConfig × List Bytes)
  closed : NginxConfig
  opened : List Bytes

namespace Zipper

/-- Nothing read yet. -/
def init : Zipper := ⟨[], [], []⟩

/-- Read one token (`none`: the token does not fit). -/
def feed (z : Zipper) : ConfigToken → Option Zipper
  | .word w => some { z with opened := z.opened ++ [w] }
  | .semicolon =>
    if z.opened = [] then none
    else some { z with closed := z.closed ++ [.mk z.opened none], opened := [] }
  | .openBrace =>
    if z.opened = [] then none
    else some ⟨(z.closed, z.opened) :: z.context, [], []⟩
  | .closeBrace =>
    if z.opened ≠ [] ∨ z.closed = [] then none
    else match z.context with
      | [] => none
      | (closed, opened) :: context =>
        some ⟨context, closed ++ [.mk opened (some z.closed)], []⟩

/-- Read a token sequence. -/
def feedAll (z : Zipper) : List ConfigToken → Option Zipper
  | [] => some z
  | t :: ts => (z.feed t).bind (feedAll · ts)

theorem feedAll_append (z : Zipper) (ts us : List ConfigToken) :
    z.feedAll (ts ++ us) = (z.feedAll ts).bind (feedAll · us) := by
  induction ts generalizing z with
  | nil => rfl
  | cons t ts ih =>
    show (z.feed t).bind (feedAll · (ts ++ us)) = ((z.feed t).bind (feedAll · ts)).bind _
    cases z.feed t with
    | none => rfl
    | some z' => exact ih z'

/-! ### Completeness: a tree's tokens rebuild the tree -/

theorem feedAll_words (z : Zipper) (words : List Bytes) :
    z.feedAll (words.map .word) = some { z with opened := z.opened ++ words } := by
  induction words generalizing z with
  | nil => simp [feedAll]
  | cons w words ih =>
    show feedAll { z with opened := z.opened ++ [w] } (words.map .word) = _
    rw [ih]
    simp

/-- Reading the tokens of a config appends its statements to the innermost
block. -/
theorem feedAll_flatten (c : NginxConfig) (h : c.AllWellFormedWith fun _ => True) :
    ∀ (context : List (NginxConfig × List Bytes)) (closed : NginxConfig),
      feedAll ⟨context, closed, []⟩ c.flatten = some ⟨context, closed ++ c, []⟩ := by
  revert h
  refine NginxConfig.induct
    (fun s => (s.WellFormedWith fun _ => True) → ∀ context closed,
      feedAll ⟨context, closed, []⟩ s.flatten = some ⟨context, closed ++ [s], []⟩)
    (fun c => (c.AllWellFormedWith fun _ => True) → ∀ context closed,
      feedAll ⟨context, closed, []⟩ c.flatten = some ⟨context, closed ++ c, []⟩)
    ?_ ?_ ?_ ?_ c
  · intro ts h context closed
    rw [NginxConfigStatement.flatten, feedAll_append, feedAll_words]
    simp [feedAll, feed, h.1]
  · intro ts child ih h context closed
    rw [NginxConfigStatement.flatten, feedAll_append, feedAll_append, feedAll_append,
      feedAll_words]
    simp [feedAll, feed, h.1.1, ih h.2.2, h.2.1]
  · intro _ context closed
    simp [NginxConfig.flatten, feedAll]
  · intro s c ihs ihc h context closed
    rw [NginxConfig.flatten, feedAll_append, ihs h.1]
    show feedAll ⟨context, closed ++ [s], []⟩ c.flatten = _
    rw [ihc h.2, List.append_assoc]
    rfl

/-! ### Soundness: what was read is what the zipper holds -/

/-- The tokens of the enclosing blocks up to the innermost open brace. -/
def contextTokens : List (NginxConfig × List Bytes) → List ConfigToken
  | [] => []
  | (closed, opened) :: context =>
    contextTokens context ++ closed.flatten ++ opened.map .word ++ [.openBrace]

/-- The tokens a zipper was built from. -/
def consumed (z : Zipper) : List ConfigToken :=
  contextTokens z.context ++ z.closed.flatten ++ z.opened.map .word

/-- The shape of a zipper: finished statements are well formed, and a block is
owned by a statement that has tokens. -/
structure Ok (z : Zipper) : Prop where
  closed : z.closed.AllWellFormedWith fun _ => True
  context : ∀ frame ∈ z.context,
    (frame.1.AllWellFormedWith fun _ => True) ∧ frame.2 ≠ []

theorem init_ok : init.Ok := ⟨trivial, by simp [init]⟩

/-- One token is consumed, and the shape is kept. -/
theorem feed_consumed {z z' : Zipper} {t : ConfigToken} (hok : z.Ok)
    (h : z.feed t = some z') : z'.consumed = z.consumed ++ [t] ∧ z'.Ok := by
  obtain ⟨context, closed, opened⟩ := z
  cases t with
  | word w =>
    cases h
    exact ⟨by simp [consumed], hok.closed, hok.context⟩
  | semicolon =>
    simp only [feed] at h
    split_ifs at h with ho
    cases h
    refine ⟨by simp [consumed, NginxConfigStatement.flatten], ?_, hok.context⟩
    simp [hok.closed, NginxConfigStatement.WellFormedWith, ho]
  | openBrace =>
    simp only [feed] at h
    split_ifs at h with ho
    cases h
    refine ⟨by simp [consumed, contextTokens, NginxConfig.flatten], trivial, ?_⟩
    rintro frame (_ | ⟨_, hmem⟩)
    · exact ⟨hok.closed, ho⟩
    · exact hok.context frame hmem
  | closeBrace =>
    simp only [feed] at h
    split_ifs at h with ho
    obtain ⟨rfl, hc⟩ : opened = [] ∧ closed ≠ [] := by simpa using ho
    cases context with
    | nil => cases h
    | cons frame context =>
      cases h
      obtain ⟨hf₁, hf₂⟩ := hok.context frame List.mem_cons_self
      refine ⟨by simp [consumed, contextTokens, NginxConfigStatement.flatten], ?_, ?_⟩
      · simp [hf₁, NginxConfigStatement.WellFormedWith, hf₂, hc, hok.closed]
      · exact fun frame' hmem => hok.context frame' (List.mem_cons_of_mem _ hmem)

theorem feedAll_consumed {z z' : Zipper} {ts : List ConfigToken} (hok : z.Ok)
    (h : z.feedAll ts = some z') : z'.consumed = z.consumed ++ ts ∧ z'.Ok := by
  induction ts generalizing z with
  | nil =>
    cases h
    exact ⟨(List.append_nil _).symm, hok⟩
  | cons t ts ih =>
    obtain ⟨z₁, hz₁, hrest⟩ := Option.bind_eq_some_iff.mp h
    obtain ⟨hcons₁, hok₁⟩ := feed_consumed hok hz₁
    obtain ⟨hcons, hok'⟩ := ih hok₁ hrest
    exact ⟨by rw [hcons, hcons₁, List.append_assoc]; rfl, hok'⟩

/-- **The zipper accepts exactly the flattened trees**, and rebuilds the tree. -/
theorem feedAll_init_iff {ts : List ConfigToken} {c : NginxConfig} :
    init.feedAll ts = some ⟨[], c, []⟩ ↔
      (c.AllWellFormedWith fun _ => True) ∧ c.flatten = ts := by
  constructor
  · intro h
    obtain ⟨hcons, hok⟩ := feedAll_consumed init_ok h
    refine ⟨hok.closed, ?_⟩
    simpa [consumed, contextTokens, init, NginxConfig.flatten] using hcons
  · rintro ⟨hc, rfl⟩
    exact feedAll_flatten c hc [] []

end Zipper

/-! ## Trees and `Statements` -/

theorem statements_flatten (c : NginxConfig) (h : c.WellFormedWith fun _ => True) :
    Statements c.flatten := by
  obtain ⟨hne, hall⟩ := h
  revert hne hall
  refine NginxConfig.induct
    (fun s => (s.WellFormedWith fun _ => True) → Statements s.flatten)
    (fun c => c ≠ [] → (c.AllWellFormedWith fun _ => True) → Statements c.flatten)
    ?_ ?_ ?_ ?_ c
  · exact fun ts h => .leaf h.1
  · exact fun ts child ih h => .block h.1.1 (ih h.2.1 h.2.2)
  · exact fun h => absurd rfl h
  · intro s c ihs ihc _ h
    by_cases hc : c = []
    · subst hc
      rw [NginxConfig.flatten_singleton]
      exact ihs h.1
    · exact .append (ihs h.1) (ihc hc h.2)

/-- The grammar's token sequences are the flattened well-formed trees. -/
theorem statements_iff {ts : List ConfigToken} :
    Statements ts ↔ ∃ c : NginxConfig, (c.WellFormedWith fun _ => True) ∧ c.flatten = ts := by
  constructor
  · intro h
    induction h with
    | @leaf words hw =>
      exact ⟨[.mk words none], ⟨by simp, by simp [NginxConfigStatement.WellFormedWith, hw]⟩,
        by simp [NginxConfigStatement.flatten]⟩
    | @block words body hw _ ih =>
      obtain ⟨child, hchild, rfl⟩ := ih
      refine ⟨[.mk words (some child)], ⟨by simp, ?_⟩, by simp [NginxConfigStatement.flatten]⟩
      simp [NginxConfigStatement.WellFormedWith, hw, hchild.1, hchild.2]
    | @append ts us _ _ iht ihu =>
      obtain ⟨c, hc, rfl⟩ := iht
      obtain ⟨d, hd, rfl⟩ := ihu
      exact ⟨c ++ d, ⟨by simp [hc.1], by simp [hc.2, hd.2]⟩, by simp⟩
  · rintro ⟨c, hc, rfl⟩
    exact statements_flatten c hc

/-! ## Where a config can still go on -/

/-- Some config begins with the tokens `ts`. -/
def Viable (ts : List ConfigToken) : Prop := ∃ us, Statements (ts ++ us)

/-- Between two statements the open blocks can be closed one after another. -/
theorem Zipper.exists_closing (context : List (NginxConfig × List Bytes))
    (closed : NginxConfig) (h : closed ≠ []) :
    ∃ us c, c ≠ [] ∧ feedAll ⟨context, closed, []⟩ us = some ⟨[], c, []⟩ := by
  induction context generalizing closed with
  | nil => exact ⟨[], closed, h, rfl⟩
  | cons frame context ih =>
    obtain ⟨closed', opened'⟩ := frame
    obtain ⟨us, c, hc, hus⟩ := ih (closed' ++ [.mk opened' (some closed)]) (by simp)
    exact ⟨.closeBrace :: us, c, hc, by simpa [feedAll, feed, h] using hus⟩

/-- A config can go on as long as the zipper reads its tokens. -/
theorem viable_iff {ts : List ConfigToken} :
    Viable ts ↔ ∃ z, Zipper.init.feedAll ts = some z := by
  constructor
  · rintro ⟨us, h⟩
    obtain ⟨c, hc, heq⟩ := statements_iff.mp h
    have hfeed := Zipper.feedAll_init_iff.mpr ⟨hc.2, heq⟩
    rw [Zipper.feedAll_append] at hfeed
    obtain ⟨z, hz, -⟩ := Option.bind_eq_some_iff.mp hfeed
    exact ⟨z, hz⟩
  · rintro ⟨⟨context, closed, opened⟩, hz⟩
    -- one more word and `;` finish the statement, then the blocks are closed
    obtain ⟨us, c, hc, hus⟩ := Zipper.exists_closing context
      (closed ++ [.mk (opened ++ [[]]) none]) (by simp)
    have hfeed : Zipper.init.feedAll (ts ++ .word [] :: .semicolon :: us) =
        some ⟨[], c, []⟩ := by
      rw [Zipper.feedAll_append, hz]
      simpa [Zipper.feedAll, Zipper.feed] using hus
    obtain ⟨hwf, hflat⟩ := Zipper.feedAll_init_iff.mp hfeed
    exact ⟨_, statements_iff.mpr ⟨c, ⟨hc, hwf⟩, hflat⟩⟩

theorem Statements.viable {ts : List ConfigToken} (h : Statements ts) : Viable ts :=
  ⟨[], by simpa using h⟩

theorem Viable.of_append {ts us : List ConfigToken} (h : Viable (ts ++ us)) : Viable ts := by
  obtain ⟨vs, h⟩ := h
  exact ⟨us ++ vs, by simpa using h⟩

/-- A word fits everywhere. -/
theorem Viable.word {ts : List ConfigToken} (h : Viable ts) (w : Bytes) :
    Viable (ts ++ [.word w]) := by
  obtain ⟨z, hz⟩ := viable_iff.mp h
  refine viable_iff.mpr ⟨{ z with opened := z.opened ++ [w] }, ?_⟩
  rw [Zipper.feedAll_append, hz]
  rfl

/-- A sequence that no config begins with has a first token that no config can
go on with. -/
theorem exists_stop {ts : List ConfigToken} (h : ¬ Viable ts) :
    ∃ us t vs, ts = us ++ t :: vs ∧ Viable us ∧ ¬ Viable (us ++ [t]) := by
  induction ts using List.reverseRecOn with
  | nil => exact absurd (viable_iff.mpr ⟨_, rfl⟩) h
  | append_singleton us t ih =>
    by_cases hus : Viable us
    · exact ⟨us, t, [], rfl, hus, h⟩
    · obtain ⟨us, t', vs, rfl, hviable, hstop⟩ := ih hus
      exact ⟨us, t', vs ++ [t], by simp, hviable, hstop⟩

end GittyUp
