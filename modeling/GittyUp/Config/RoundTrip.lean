import GittyUp.Config.Spelling

/-!
# `ToString` and `Parse` are inverse

`ToString` at any depth spells the tokens of its tree (`spells_toString`), so
`Parse` reads the tree back; and a tree that `Parse` returns is always one that
`ToString` can write, since its words are token texts.
-/

namespace GittyUp

open Lib

/-- A config that a text can stand for: at least one statement, every statement
at least one token, every token a bare word or a complete quoted string, every
child block again such a config. -/
def NginxConfig.WellFormed (c : NginxConfig) : Prop := c.WellFormedWith IsWord

/-- **A parsed config is well formed.** -/
theorem wellFormed_of_parse {s : Bytes} {c : NginxConfig} (h : parse s [] = (true, c)) :
    c.WellFormed := by
  obtain ⟨ts, rest, hspells, hend⟩ := exists_spells s
  obtain ⟨-, ⟨hne, hwf⟩, rfl⟩ := (hspells.parse_eq_true_iff hend c).mp h
  exact ⟨hne, hwf.of_words hspells.isWord⟩

/-! ## What `ToString` spells -/

theorem spells_word {w : Bytes} (hw : IsWord w) {c : Byte} (hc : EndsWord c) (s : Bytes) :
    Spells [.word w] (w ++ c :: s) (c :: s) :=
  hw.elim (fun h => .bare h hc .done) (fun h => .quoted h .done)

theorem spells_indent (depth : Nat) (s : Bytes) : Spells [] (indent depth ++ s) s := by
  induction depth with
  | zero => exact .done
  | succ depth ih => exact .blank (.inl rfl) (.blank (.inl rfl) ih)

theorem joinTokens_cons_cons (t u : Bytes) (ts : List Bytes) :
    joinTokens (t :: u :: ts) = t ++ (' ' : Byte) :: joinTokens (u :: ts) := by
  simp [joinTokens, lit]

theorem spells_joinTokens {ts : List Bytes} (hts : ∀ t ∈ ts, IsWord t) {c : Byte}
    (hc : EndsWord c) (s : Bytes) :
    Spells (ts.map .word) (joinTokens ts ++ c :: s) (c :: s) := by
  induction ts with
  | nil => exact .done
  | cons t ts ih =>
    obtain ⟨ht, hts⟩ := List.forall_mem_cons.mp hts
    cases ts with
    | nil => simpa [joinTokens] using spells_word ht hc s
    | cons u ts =>
      rw [joinTokens_cons_cons, List.append_assoc, List.cons_append]
      exact (spells_word ht (.inl rfl) _).append (.blank (.inl rfl) (ih hts))

/-- The printed config spells its tokens, whatever text follows it. -/
theorem spells_toString (c : NginxConfig) (h : c.AllWellFormedWith IsWord) :
    ∀ (depth : Nat) (s : Bytes), Spells c.flatten (c.toString depth ++ s) s := by
  revert h
  refine NginxConfig.induct
    (fun st => st.WellFormedWith IsWord → ∀ depth s,
      Spells st.flatten (st.toString depth ++ s) s)
    (fun c => c.AllWellFormedWith IsWord → ∀ depth s,
      Spells c.flatten (c.toString depth ++ s) s)
    ?_ ?_ ?_ ?_ c
  · -- `<indent><tokens>;\n`
    intro ts h depth s
    have hwords : Spells (ts.map .word) (joinTokens ts ++ (';' : Byte) :: (10 :: s))
        ((';' : Byte) :: (10 :: s)) := spells_joinTokens h.2 (by decide) _
    have hend : Spells [.semicolon] ((';' : Byte) :: (10 :: s)) s :=
      .semicolon (.blank (by decide) .done)
    simpa [NginxConfigStatement.toString, NginxConfigStatement.flatten, lit] using
      (spells_indent depth _).append (hwords.append hend)
  · -- `<indent><tokens> {\n<child><indent>}\n`
    intro ts child ih h depth s
    have hclose : Spells [.closeBrace] (indent depth ++ ('}' : Byte) :: (10 :: s)) s :=
      (spells_indent depth _).append (.closeBrace (.blank (by decide) .done))
    have hchild := (ih h.2.2 (depth + 1) _).append hclose
    have hopen := Spells.blank (c := ' ') (by decide)
      (Spells.openBrace (Spells.blank (c := 10) (by decide) hchild))
    have hwords := (spells_joinTokens h.1.2 (c := ' ') (by decide) _).append hopen
    simpa [NginxConfigStatement.toString, NginxConfigStatement.flatten, lit] using
      (spells_indent depth _).append hwords
  · exact fun _ _ _ => .done
  · intro st c ihs ihc h depth s
    rw [NginxConfig.toString, NginxConfig.flatten, List.append_assoc]
    exact (ihs h.1 depth _).append (ihc h.2 depth s)

/-- **`Parse` reads back what `ToString` printed**, at any depth. -/
theorem parse_toString {c : NginxConfig} (h : c.WellFormed) (depth : Nat) :
    parse (c.toString depth) [] = (true, c) := by
  have hspells : Spells c.flatten (c.toString depth) [] := by
    simpa using spells_toString c h.2 depth []
  have hshape : c.WellFormedWith fun _ => True :=
    ⟨h.1, h.2.of_words fun _ _ => trivial⟩
  exact (hspells.parse_eq_true_iff .nil c).mpr ⟨by simp [OpenQuote], hshape, rfl⟩

/-- **Printing and parsing are inverse**: what `Parse` returns is well formed,
and `Parse` inverts `ToString` on every well-formed config, at every depth. -/
theorem parse_toString_inverse :
    (∀ (s : Bytes) (c : NginxConfig), parse s [] = (true, c) → c.WellFormed) ∧
      ∀ (c : NginxConfig) (depth : Nat), c.WellFormed →
        parse (c.toString depth) [] = (true, c) :=
  ⟨fun _ _ h => wellFormed_of_parse h, fun _ depth h => parse_toString h depth⟩

/-- A server block holding a bare word and a quoted string, printed at depth 1. -/
theorem parse_toString_inverse_server :
    parse (NginxConfig.toString 1
      [.mk ["server"] (some [.mk ["listen", "'8;0'"] none])]) [] =
      (true, [.mk ["server"] (some [.mk ["listen", "'8;0'"] none])]) := by
  refine parse_toString_inverse.2 _ 1 ⟨by simp, ⟨⟨by simp, ?_⟩, by simp, ⟨by simp, ?_⟩, trivial⟩,
    trivial⟩
  · intro t ht
    obtain rfl := List.mem_singleton.mp ht
    exact .inl (by decide)
  · intro t ht
    rcases List.mem_pair.mp ht with rfl | rfl
    · exact .inl (by decide)
    · exact .inr ⟨'\'', "8;0", .inr rfl, by decide, by decide⟩

end GittyUp
