import GittyUp.Lib.Bytes
import Mathlib.Data.List.Forall2

/-!
# JSON

A parser for the JSON texts in ASCII that have no numbers, literals or escape
sequences. `Reads` says what a parser reads in front of any further text;
`reads_string`, `reads_array` and `reads_object` are its rules, one for each kind
of value, and `parse_array` and `parse_object` those for whole texts.
-/

namespace Lib

/-- A JSON value. -/
inductive Json where
  | string (s : Bytes)
  | array (values : List Json)
  | object (members : List (Bytes × Json))

namespace Json

/-! ## The parser -/

/-- The blanks between tokens. -/
def IsBlank (c : Byte) : Prop := c = ' ' ∨ c = '\t' ∨ c = '\n' ∨ c = '\r'

instance : DecidablePred IsBlank := fun _ => inferInstanceAs (Decidable (_ ∨ _ ∨ _ ∨ _))

/-- A character that stands for itself in a string. -/
def IsStringChar (c : Byte) : Prop := ' ' ≤ c ∧ c < 128 ∧ c ≠ '"' ∧ c ≠ '\\'

instance : DecidablePred IsStringChar := fun _ => inferInstanceAs (Decidable (_ ∧ _ ∧ _ ∧ _))

def skipBlanks (s : Bytes) : Bytes := s.dropWhile (IsBlank ·)

/-- The characters of a string up to its closing quote, and what follows. -/
def stringRest : Bytes → Option (Bytes × Bytes)
  | [] => none
  | c :: s =>
    if c = '"' then some ([], s)
    else if IsStringChar c then (stringRest s).map fun p => (c :: p.1, p.2)
    else none

section Items

variable {β : Type} (item : Bytes → Option (β × Bytes)) (close : Byte)

/-- Items with commas between them, up to the closing character. -/
def items : Nat → Bytes → Option (List β × Bytes)
  | 0, _ => none
  | fuel + 1, s => do
    let (v, s) ← item s
    match skipBlanks s with
    | [] => none
    | c :: s =>
      if c = close then some ([v], s)
      else if c = ',' then (items fuel s).map fun p => (v :: p.1, p.2)
      else none

/-- No items, or some. -/
def itemList (fuel : Nat) (s : Bytes) : Option (List β × Bytes) :=
  match skipBlanks s with
  | [] => none
  | c :: s' => if c = close then some ([], s') else items item close fuel s

end Items

/-- A member of an object: a string, a colon and a value. -/
def member (value : Bytes → Option (Json × Bytes)) (s : Bytes) : Option ((Bytes × Json) × Bytes) :=
  match skipBlanks s with
  | [] => none
  | c :: s =>
    if c = '"' then do
      let (key, s) ← stringRest s
      match skipBlanks s with
      | [] => none
      | c :: s => if c = ':' then (value s).map fun p => ((key, p.1), p.2) else none
    else none

/-- A value, nested at most as deep as the fuel goes. -/
def value : Nat → Bytes → Option (Json × Bytes)
  | 0, _ => none
  | fuel + 1, s =>
    match skipBlanks s with
    | [] => none
    | c :: s =>
      if c = '"' then (stringRest s).map fun p => (.string p.1, p.2)
      else if c = '[' then (itemList (value fuel) ']' fuel s).map fun p => (.array p.1, p.2)
      else if c = '\x7b' then
        (itemList (member (value fuel)) '\x7d' fuel s).map fun p => (.object p.1, p.2)
      else none

/-- The value of a JSON text. -/
def parse (s : Bytes) : Option Json := do
  let (v, rest) ← value (s.length + 1) s
  if skipBlanks rest = [] then some v else none

example : (parse "[ \"a\", \x7b\"b\" : \"c\"\x7d]").isSome = true := by decide

example : (parse "[\"a\",]").isSome = false := by decide

/-! ## What is read -/

/-- The text `t` is read as `v`, after blanks and in front of anything. -/
def Reads {β : Type} (item : Bytes → Option (β × Bytes)) (t : Bytes) (v : β) : Prop :=
  ∀ blanks rest, (∀ c ∈ blanks, IsBlank c) → item (blanks ++ (t ++ rest)) = some (v, rest)

/-- A string in quotes. -/
def quoted (w : Bytes) : Bytes := lit "\"" ++ w ++ lit "\""

theorem skipBlanks_append {blanks : Bytes} (h : ∀ c ∈ blanks, IsBlank c) {c : Byte} (s : Bytes)
    (hc : ¬ IsBlank c) : skipBlanks (blanks ++ c :: s) = c :: s := by
  unfold skipBlanks
  rw [List.dropWhile_append_of_pos (by simpa using h),
    List.dropWhile_cons_of_neg (by simpa using hc)]

theorem stringRest_append {w : Bytes} (h : ∀ c ∈ w, IsStringChar c) (rest : Bytes) :
    stringRest (w ++ ('"' : Byte) :: rest) = some (w, rest) := by
  induction w with
  | nil => rfl
  | cons c w ih =>
    obtain ⟨hc, hw⟩ := List.forall_mem_cons.mp h
    rw [List.cons_append, stringRest, if_neg hc.2.2.1, if_pos hc, ih hw]
    rfl

theorem reads_string {w : Bytes} (h : ∀ c ∈ w, IsStringChar c) (fuel : Nat) :
    Reads (value (fuel + 1)) (quoted w) (.string w) := by
  intro blanks rest hblanks
  have htext : blanks ++ (quoted w ++ rest) =
      blanks ++ ('"' : Byte) :: (w ++ ('"' : Byte) :: rest) := by
    simp [quoted, lit]
  rw [htext, value, skipBlanks_append hblanks _ (by decide)]
  dsimp only
  rw [if_pos rfl, stringRest_append h]
  rfl

section Items

variable {β : Type} {item : Bytes → Option (β × Bytes)} {close : Byte} {texts : List Bytes}
  {values : List β} {blanks spaces : Bytes}

/-- A text that begins like an item, not like the end of the items. -/
def Starts (close : Byte) (t : Bytes) : Prop :=
  ∃ c u, t = c :: u ∧ ¬ IsBlank c ∧ c ≠ close

theorem items_reads (hitems : List.Forall₂ (Reads item) texts values) (hne : texts ≠ [])
    (hclose : ¬ IsBlank close ∧ close ≠ ',') (hspaces : ∀ c ∈ spaces, IsBlank c) {fuel : Nat}
    (hfuel : texts.length ≤ fuel) (hblanks : ∀ c ∈ blanks, IsBlank c) (rest : Bytes) :
    items item close fuel
        (blanks ++ (List.intercalate (lit "," ++ spaces) texts ++ close :: rest)) =
      some (values, rest) := by
  induction hitems generalizing fuel blanks with
  | nil => exact absurd rfl hne
  | @cons t v texts values hitem hitems ih =>
    obtain ⟨fuel, rfl⟩ : ∃ n, fuel = n + 1 := ⟨fuel - 1, by simp at hfuel; omega⟩
    cases hitems with
    | nil =>
      rw [List.intercalate_singleton, items, hitem _ _ hblanks]
      dsimp only [bind, Option.bind]
      rw [← List.nil_append (close :: rest), skipBlanks_append (by simp) _ hclose.1]
      dsimp only
      rw [if_pos rfl]
    | @cons t' v' texts values hitem' hitems =>
      have hih := ih (List.cons_ne_nil _ _) (Nat.le_of_succ_le_succ hfuel) hspaces
      have htext : blanks ++ (List.intercalate (lit "," ++ spaces) (t :: t' :: texts) ++
          close :: rest) = blanks ++ (t ++ ([] ++ (',' : Byte) :: (spaces ++
            (List.intercalate (lit "," ++ spaces) (t' :: texts) ++ close :: rest)))) := by
        simp [List.intercalate_cons_cons, lit]
      rw [htext, items, hitem _ _ hblanks]
      dsimp only [bind, Option.bind]
      rw [skipBlanks_append (by simp) _ (by decide)]
      dsimp only
      rw [if_neg (Ne.symm hclose.2), if_pos rfl, hih]
      rfl

/-- **A list of items** between blanks, with commas between them. -/
theorem itemList_reads (hitems : List.Forall₂ (Reads item) texts values)
    (hclose : ¬ IsBlank close ∧ close ≠ ',') (hstarts : ∀ t ∈ texts, Starts close t)
    (hspaces : ∀ c ∈ spaces, IsBlank c) {fuel : Nat} (hfuel : texts.length ≤ fuel) (rest : Bytes) :
    itemList item close fuel (List.intercalate (lit "," ++ spaces) texts ++ close :: rest) =
      some (values, rest) := by
  cases hitems with
  | nil =>
    have hempty : List.intercalate (lit "," ++ spaces) [] ++ close :: rest =
        [] ++ close :: rest := by simp
    rw [hempty, itemList, skipBlanks_append (by simp) _ hclose.1]
    dsimp only
    rw [if_pos rfl]
  | @cons t v texts values hitem hitems =>
    obtain ⟨c, u, rfl, hblank, hc⟩ := hstarts _ List.mem_cons_self
    obtain ⟨more, hmore⟩ : ∃ more, List.intercalate (lit "," ++ spaces) ((c :: u) :: texts) =
        c :: more := by
      cases texts with
      | nil => exact ⟨u, List.intercalate_singleton⟩
      | cons t texts => exact ⟨_, by rw [List.intercalate_cons_cons, List.cons_append]; rfl⟩
    have hitems' : items item close fuel ([] ++ (List.intercalate (lit "," ++ spaces)
        ((c :: u) :: texts) ++ close :: rest)) = some (v :: values, rest) :=
      items_reads (.cons hitem hitems) (List.cons_ne_nil _ _) hclose hspaces hfuel (by simp) rest
    rw [List.nil_append] at hitems'
    rw [itemList, hmore, List.cons_append, ← List.nil_append (c :: _),
      skipBlanks_append (by simp) _ hblank]
    dsimp only
    rw [if_neg hc, ← hitems', hmore]
    rfl

end Items

theorem reads_array {texts : List Bytes} {values : List Json} {spaces : Bytes} {fuel : Nat}
    (hitems : List.Forall₂ (Reads (value fuel)) texts values)
    (hstarts : ∀ t ∈ texts, Starts ']' t) (hspaces : ∀ c ∈ spaces, IsBlank c)
    (hfuel : texts.length ≤ fuel) :
    Reads (value (fuel + 1)) (lit "[" ++ List.intercalate (lit "," ++ spaces) texts ++ lit "]")
      (.array values) := by
  intro blanks rest hblanks
  have htext : blanks ++ (lit "[" ++ List.intercalate (lit "," ++ spaces) texts ++ lit "]" ++
      rest) = blanks ++ ('[' : Byte) ::
        (List.intercalate (lit "," ++ spaces) texts ++ (']' : Byte) :: rest) := by
    simp [lit]
  rw [htext, value, skipBlanks_append hblanks _ (by decide)]
  dsimp only
  rw [if_neg (by decide), if_pos rfl,
    itemList_reads hitems (by decide) hstarts hspaces hfuel]
  rfl

/-- A member, with blanks behind the colon. -/
theorem reads_member {k : Bytes} (hk : ∀ c ∈ k, IsStringChar c) {spaces : Bytes}
    (hspaces : ∀ c ∈ spaces, IsBlank c) {item : Bytes → Option (Json × Bytes)} {t : Bytes}
    {v : Json} (ht : Reads item t v) :
    Reads (member item) (quoted k ++ (lit ":" ++ (spaces ++ t))) (k, v) := by
  intro blanks rest hblanks
  have htext : blanks ++ (quoted k ++ (lit ":" ++ (spaces ++ t)) ++ rest) =
      blanks ++ ('"' : Byte) :: (k ++ ('"' : Byte) ::
        ([] ++ (':' : Byte) :: (spaces ++ (t ++ rest)))) := by
    simp [quoted, lit]
  rw [htext, member, skipBlanks_append hblanks _ (by decide)]
  dsimp only
  rw [if_pos rfl, stringRest_append hk]
  dsimp only [bind, Option.bind]
  rw [skipBlanks_append (by simp) _ (by decide)]
  dsimp only
  rw [if_pos rfl, ht _ _ hspaces]
  rfl

theorem reads_object {texts : List Bytes} {members : List (Bytes × Json)} {spaces : Bytes}
    {fuel : Nat} (hitems : List.Forall₂ (Reads (member (value fuel))) texts members)
    (hstarts : ∀ t ∈ texts, Starts '\x7d' t) (hspaces : ∀ c ∈ spaces, IsBlank c)
    (hfuel : texts.length ≤ fuel) :
    Reads (value (fuel + 1))
      (lit "\x7b" ++ List.intercalate (lit "," ++ spaces) texts ++ lit "\x7d")
      (.object members) := by
  intro blanks rest hblanks
  have htext : blanks ++ (lit "\x7b" ++ List.intercalate (lit "," ++ spaces) texts ++ lit "\x7d" ++
      rest) = blanks ++ ('\x7b' : Byte) ::
        (List.intercalate (lit "," ++ spaces) texts ++ ('\x7d' : Byte) :: rest) := by
    simp [lit]
  rw [htext, value, skipBlanks_append hblanks _ (by decide)]
  dsimp only
  rw [if_neg (by decide), if_neg (by decide), if_pos rfl,
    itemList_reads hitems (by decide) hstarts hspaces hfuel]
  rfl

/-- **A text that is read as a value has this value.** -/
theorem parse_eq_some {s : Bytes} {v : Json} (h : Reads (value (s.length + 1)) s v) :
    parse s = some v := by
  have hread := h [] [] (by simp)
  rw [List.nil_append, List.append_nil] at hread
  rw [parse, hread]
  rfl

theorem length_le_intercalate (sep : Bytes) {texts : List Bytes} (h : ∀ t ∈ texts, t ≠ []) :
    texts.length ≤ (List.intercalate sep texts).length := by
  induction texts with
  | nil => simp
  | cons t texts ih =>
    obtain ⟨ht, htexts⟩ := List.forall_mem_cons.mp h
    have hpos := List.length_pos_iff.mpr ht
    have hih := ih htexts
    cases texts with
    | nil =>
      rw [List.intercalate_singleton]
      exact hpos
    | cons t' texts =>
      rw [List.intercalate_cons_cons, List.length_append, List.length_append, List.length_cons]
      omega

theorem Starts.ne_nil {close : Byte} {t : Bytes} (h : Starts close t) : t ≠ [] := by
  obtain ⟨c, u, rfl, -⟩ := h
  exact List.cons_ne_nil c u

/-- **A text in square brackets is an array.** -/
theorem parse_array {texts : List Bytes} {values : List Json} {spaces : Bytes}
    (hitems : ∀ fuel, List.Forall₂ (Reads (value (fuel + 1))) texts values)
    (hstarts : ∀ t ∈ texts, Starts ']' t) (hspaces : ∀ c ∈ spaces, IsBlank c) :
    parse (lit "[" ++ List.intercalate (lit "," ++ spaces) texts ++ lit "]") =
      some (.array values) := by
  have hfuel := length_le_intercalate (lit "," ++ spaces) fun t ht => (hstarts t ht).ne_nil
  have hlength : (lit "[" ++ List.intercalate (lit "," ++ spaces) texts ++ lit "]").length =
      (List.intercalate (lit "," ++ spaces) texts).length + 1 + 1 := by
    simp [lit]
  refine parse_eq_some ?_
  rw [hlength]
  exact reads_array (hitems _) hstarts hspaces (by omega)

/-- **A text in braces is an object.** -/
theorem parse_object {texts : List Bytes} {members : List (Bytes × Json)} {spaces : Bytes}
    (hitems : ∀ fuel, List.Forall₂ (Reads (member (value (fuel + 1)))) texts members)
    (hstarts : ∀ t ∈ texts, Starts '\x7d' t) (hspaces : ∀ c ∈ spaces, IsBlank c) :
    parse (lit "\x7b" ++ List.intercalate (lit "," ++ spaces) texts ++ lit "\x7d") =
      some (.object members) := by
  have hfuel := length_le_intercalate (lit "," ++ spaces) fun t ht => (hstarts t ht).ne_nil
  have hlength : (lit "\x7b" ++ List.intercalate (lit "," ++ spaces) texts ++ lit "\x7d").length =
      (List.intercalate (lit "," ++ spaces) texts).length + 1 + 1 := by
    simp [lit]
  refine parse_eq_some ?_
  rw [hlength]
  exact reads_object (hitems _) hstarts hspaces (by omega)

end Json

end Lib
