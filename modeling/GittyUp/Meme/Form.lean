import GittyUp.Http.Target
import GittyUp.Meme.Handler

/-!
# What `body_check` accepts

`body_check` decodes the body first and then looks for fields `key=value` in it,
so a byte that is no caption character ends a value, and what follows it is read
as further fields. `fieldsIn` scans a text for fields as the iterated regex does
(`map_matchesAt_bodyParamRegex`), and `bodyCheck_eq_some_iff` is `body_check` in
these terms. Hence every form with caption characters only is accepted as it was
filled in (`bodyCheck_form`), and any other accepted form is stored wrong
(`form_exact_iff`).
-/

namespace GittyUp

open Lib Regex

/-! ## The fields of a text -/

/-- Where a scan for fields stands: in what may be a key, or in a value. -/
inductive FormState where
  | key (k : Bytes)
  | value (k v : Bytes)

/-- A field, if the value is not empty. -/
def field (k v : Bytes) : List (Bytes × Bytes) := if v = [] then [] else [(k, v)]

/-- The fields that are found from a state on: word characters, an `=`, and
caption characters. -/
def fieldsFrom : FormState → Bytes → List (Bytes × Bytes)
  | .key _, [] => []
  | .value k v, [] => field k v
  | .key k, c :: s =>
    if IsWordChar c then fieldsFrom (.key (k ++ [c])) s
    else if c = '=' ∧ k ≠ [] then fieldsFrom (.value k []) s
    else fieldsFrom (.key []) s
  | .value k v, c :: s =>
    if IsCaptionChar c then fieldsFrom (.value k (v ++ [c])) s
    else field k v ++ fieldsFrom (.key []) s

/-- The fields of a text. -/
def fieldsIn (s : Bytes) : List (Bytes × Bytes) := fieldsFrom (.key []) s

example : fieldsIn "a=b=c&d=&e=f-g=h" =
    [(lit "a", lit "b"), (lit "e", lit "f"), (lit "g", lit "h")] := by decide

theorem fieldsFrom_word {u : Bytes} (hu : ∀ c ∈ u, IsWordChar c) (k s : Bytes) :
    fieldsFrom (.key k) (u ++ s) = fieldsFrom (.key (k ++ u)) s := by
  induction u generalizing k with
  | nil => rw [List.nil_append, List.append_nil]
  | cons c u ih =>
    obtain ⟨hc, hu⟩ := List.forall_mem_cons.mp hu
    rw [List.cons_append, fieldsFrom, if_pos hc, ih hu, List.append_assoc, List.singleton_append]

theorem fieldsFrom_caption {u : Bytes} (hu : ∀ c ∈ u, IsCaptionChar c) (k v s : Bytes) :
    fieldsFrom (.value k v) (u ++ s) = fieldsFrom (.value k (v ++ u)) s := by
  induction u generalizing v with
  | nil => rw [List.nil_append, List.append_nil]
  | cons c u ih =>
    obtain ⟨hc, hu⟩ := List.forall_mem_cons.mp hu
    rw [List.cons_append, fieldsFrom, if_pos hc, ih hu, List.append_assoc, List.singleton_append]

theorem IsWordChar.isCaptionChar {c : Byte} (h : IsWordChar c) : IsCaptionChar c := .inl h

/-- A value ends before a byte that is no caption character. -/
theorem fieldsFrom_value_stop {k v s : Bytes} (hs : ∀ c, s.head? = some c → ¬ IsCaptionChar c) :
    fieldsFrom (.value k v) s = field k v ++ fieldsIn s := by
  cases s with
  | nil => exact (List.append_nil _).symm
  | cons c s =>
    have hc : ¬ IsCaptionChar c := hs c rfl
    have hskip : ¬ (c = '=' ∧ ([] : Bytes) ≠ []) := fun h => h.2 rfl
    rw [fieldsFrom, if_neg hc, fieldsIn, fieldsFrom, if_neg (mt IsWordChar.isCaptionChar hc),
      if_neg hskip]

/-- The field of a key, with the fields behind its value. -/
theorem fieldsIn_param {k : Bytes} (hk : k ≠ [] ∧ ∀ c ∈ k, IsWordChar c) {v s : Bytes}
    (hv : ∀ c ∈ v, IsCaptionChar c) (hs : ∀ c, s.head? = some c → ¬ IsCaptionChar c) :
    fieldsIn (k ++ (lit "=" ++ (v ++ s))) = field k v ++ fieldsIn s := by
  have heq : ¬ IsWordChar '=' := by decide
  rw [fieldsIn, fieldsFrom_word hk.2]
  show fieldsFrom (.key k) ('=' :: (v ++ s)) = _
  rw [fieldsFrom, if_neg heq, if_pos ⟨rfl, hk.1⟩, fieldsFrom_caption hv, List.nil_append,
    fieldsFrom_value_stop hs]

/-- Word characters before anything but an `=` are no field. -/
theorem fieldsIn_skip {k : Bytes} (hk : ∀ c ∈ k, IsWordChar c) {c : Byte} (hc : ¬ IsWordChar c)
    (h : ¬ (c = '=' ∧ k ≠ [])) (s : Bytes) :
    fieldsIn (k ++ c :: s) = fieldsIn s := by
  rw [fieldsIn, fieldsFrom_word hk]
  show fieldsFrom (.key k) (c :: s) = _
  rw [fieldsFrom, if_neg hc, if_neg h, fieldsIn]

/-- An ampersand separates fields. -/
theorem fieldsFrom_ampersand (st : FormState) (u v : Bytes) :
    fieldsFrom st (u ++ ('&' : Byte) :: v) = fieldsFrom st u ++ fieldsIn v := by
  have hword : ¬ IsWordChar '&' := by decide
  have hcaption : ¬ IsCaptionChar '&' := by decide
  have heq : ∀ k : Bytes, ¬ ((('&' : Byte) = '=') ∧ k ≠ []) := fun k h => absurd h.1 (by decide)
  induction u generalizing st with
  | nil =>
    cases st with
    | key k =>
      show fieldsFrom (.key k) ('&' :: v) = fieldsIn v
      rw [fieldsFrom, if_neg hword, if_neg (heq k), fieldsIn]
    | value k v' =>
      show fieldsFrom (.value k v') ('&' :: v) = field k v' ++ fieldsIn v
      rw [fieldsFrom, if_neg hcaption, fieldsIn]
  | cons c u ih =>
    cases st with
    | key k =>
      rw [List.cons_append, fieldsFrom, fieldsFrom]
      split_ifs
      · exact ih _
      · exact ih _
      · exact ih _
    | value k v' =>
      rw [List.cons_append, fieldsFrom, fieldsFrom]
      split_ifs
      · exact ih _
      · rw [ih, List.append_assoc]

/-- Values are not empty, and have caption characters only. -/
theorem value_of_mem_fieldsFrom {st : FormState} {s : Bytes}
    (hst : ∀ k v, st = .value k v → ∀ c ∈ v, IsCaptionChar c) :
    ∀ f ∈ fieldsFrom st s, f.2 ≠ [] ∧ ∀ c ∈ f.2, IsCaptionChar c := by
  have hfield : ∀ {k v : Bytes}, (∀ c ∈ v, IsCaptionChar c) →
      ∀ f ∈ field k v, f.2 ≠ [] ∧ ∀ c ∈ f.2, IsCaptionChar c := by
    intro k v hv f hf
    unfold field at hf
    split_ifs at hf with hempty
    · contradiction
    · obtain rfl := List.mem_singleton.mp hf
      exact ⟨hempty, hv⟩
  induction s generalizing st with
  | nil =>
    cases st with
    | key k => exact fun f hf => absurd hf List.not_mem_nil
    | value k v => exact hfield (hst k v rfl)
  | cons c s ih =>
    have hkey : ∀ k, ∀ f ∈ fieldsFrom (.key k) s, f.2 ≠ [] ∧ ∀ c ∈ f.2, IsCaptionChar c :=
      fun k => ih fun _ _ h => by contradiction
    cases st with
    | key k =>
      rw [fieldsFrom]
      split_ifs
      · exact hkey _
      · refine ih fun k' v' h => ?_
        obtain ⟨-, rfl⟩ := FormState.value.inj h
        simp
      · exact hkey _
    | value k v =>
      have hv := hst k v rfl
      rw [fieldsFrom]
      split_ifs with hc
      · refine ih fun k' v' h => ?_
        obtain ⟨-, rfl⟩ := FormState.value.inj h
        exact List.forall_mem_append.mpr ⟨hv, by simpa using hc⟩
      · exact List.forall_mem_append.mpr ⟨hfield hv, hkey _⟩

theorem value_of_mem_fieldsIn {s : Bytes} :
    ∀ f ∈ fieldsIn s, f.2 ≠ [] ∧ ∀ c ∈ f.2, IsCaptionChar c :=
  value_of_mem_fieldsFrom fun _ _ h => by contradiction

/-! ## The regex of `body_check` -/

theorem accepts_captions {pre w post : Bytes} :
    (plus true captionClass).Accepts pre w post ↔ w ≠ [] ∧ ∀ c ∈ w, IsCaptionChar c := by
  rw [captionClass, accepts_plus_char]
  simp only [decide_eq_true_eq]

/-- The words of the regex. -/
theorem accepts_bodyParamRegex {pre w post : Bytes} (h : bodyParamRegex.Accepts pre w post) :
    ∃ k v amps, w = k ++ (lit "=" ++ (v ++ amps)) ∧ (k ≠ [] ∧ ∀ c ∈ k, IsWordChar c) ∧
      v ≠ [] ∧ ∀ c ∈ v, IsCaptionChar c := by
  obtain ⟨k, _, rfl, hk, _, _, rfl, heq, v, _, rfl, hv, amps, _, rfl, -, rfl⟩ := h
  obtain rfl := accepts_literal.mp heq
  exact ⟨k, v, amps ++ [], rfl, accepts_word.mp hk, accepts_captions.mp hv⟩

theorem nonEmpty_bodyParamRegex : bodyParamRegex.NonEmpty := by
  intro pre w post h
  obtain ⟨k, v, amps, rfl, hk, -⟩ := accepts_bodyParamRegex h
  simp [hk.1]

/-- The match at a field. -/
theorem first_bodyParamRegex (seen : Bytes) {k v amps rest : Bytes}
    (hk : k ≠ [] ∧ ∀ c ∈ k, IsWordChar c) (hv : v ≠ [] ∧ ∀ c ∈ v, IsCaptionChar c)
    (hamps : ∀ c ∈ amps, c = ('&' : Byte))
    (hstop : ∀ c, (amps ++ rest).head? = some c → ¬ IsCaptionChar c)
    (hrest : rest.head? ≠ some ('&' : Byte)) :
    bodyParamRegex.first ⟨seen, k ++ (lit "=" ++ (v ++ (amps ++ rest))), []⟩ =
      some ⟨seen ++ k ++ lit "=" ++ v ++ amps, rest, [(2, v), (1, k)]⟩ := by
  rw [bodyParamRegex, concat]
  refine first_group_run (w := k) (P := IsWordChar) (ordered_plus (deterministic_char _)) rfl
    within_plus_char rfl ?_ (accepts_word.mpr hk) ?_
  · intro c hc
    obtain rfl : ('=' : Byte) = c := Option.some.inj hc
    decide
  · rw [concat, first_literal rfl]
    refine first_group_run (w := v) (P := IsCaptionChar) (ordered_plus (deterministic_char _)) rfl
      within_plus_char rfl hstop (accepts_captions.mpr hv) ?_
    · refine first_seq_run (w := amps) (P := fun c => c = ('&' : Byte))
        (ordered_star (deterministic_literal _)) rfl ?_ rfl ?_ (accepts_ampersands.mpr hamps) rfl
      · exact ⟨fun _ hc => of_decide_eq_true hc, trivial⟩
      · rintro c hc rfl
        exact hrest hc

/-- A part in which no key runs up to an `=` before a caption character has no
match. -/
theorem matchesAt_skip_key {k : Bytes} (hk : ∀ c ∈ k, IsWordChar c) {c : Byte}
    (hc : ¬ IsWordChar c) {s : Bytes}
    (h : c = '=' → k ≠ [] → ∀ d, s.head? = some d → ¬ IsCaptionChar d) (seen : Bytes) :
    bodyParamRegex.matchesAt seen (k ++ c :: s) =
      bodyParamRegex.matchesAt (seen ++ (k ++ [c])) s := by
  have hsplit : k ++ c :: s = (k ++ [c]) ++ s := by simp
  rw [hsplit]
  refine matchesAt_skip nonEmpty_bodyParamRegex fun u₁ d u₂ hu w v hwv hacc => ?_
  obtain ⟨k', v', amps, rfl, ⟨hne, hk'⟩, hv', hcaption⟩ := accepts_bodyParamRegex hacc
  -- the key of a match begins within `k`
  obtain ⟨k₂, hsuffix, hd⟩ : ∃ k₂, k₂ <:+ k ∧ d :: u₂ = k₂ ++ [c] := by
    rcases List.append_eq_append_iff.mp hu with ⟨k₂, -, hd⟩ | ⟨k₂, rfl, hd⟩
    · cases k₂ with
      | nil => exact ⟨[], List.nil_suffix, hd.symm⟩
      | cons e k₂ => exact absurd (List.cons.inj hd).2 (by simp)
    · exact ⟨k₂, List.suffix_append _ _, hd⟩
  have htext : k₂ ++ c :: s = k' ++ ('=' : Byte) :: (v' ++ amps ++ v) := by
    rw [hd] at hwv
    simpa [lit] using hwv
  obtain ⟨rfl, rfl, hs⟩ := run_cancel (fun e he => hk e (hsuffix.mem he)) hk' hc (by decide) htext
  obtain ⟨e, v', rfl⟩ := List.exists_cons_of_ne_nil hv'
  refine h rfl ?_ e (by rw [hs]; rfl) (hcaption e List.mem_cons_self)
  rintro rfl
  exact hne (List.suffix_nil.mp hsuffix)

theorem fieldsIn_ampersands {amps : Bytes} (h : ∀ c ∈ amps, c = ('&' : Byte)) (s : Bytes) :
    fieldsIn (amps ++ s) = fieldsIn s := by
  induction amps with
  | nil => rfl
  | cons c amps ih =>
    obtain ⟨rfl, hamps⟩ := List.forall_mem_cons.mp h
    rw [← ih hamps]
    exact fieldsIn_skip (k := []) (by simp) (by decide) (by simp) _

/-- **The iterated regex finds the fields of a text.** -/
theorem map_matchesAt_bodyParamRegex (seen s : Bytes) :
    (bodyParamRegex.matchesAt seen s).map (fun m => (m.str 1, m.str 2)) = fieldsIn s := by
  refine map_matchesAt nonEmpty_bodyParamRegex (fun seen s => ?_) seen s
  obtain ⟨k, t, rfl, hk, hstop⟩ := exists_run IsWordChar s
  cases t with
  | nil =>
    -- no `=` in sight
    refine .done (matchesAt_eq_nil fun u w v huv hacc => ?_) (fieldsFrom_word hk [] [])
    obtain ⟨k', v', amps, rfl, -⟩ := accepts_bodyParamRegex hacc
    have hmem : ('=' : Byte) ∈ k ++ [] := by
      rw [huv]
      simp [lit]
    rw [List.append_nil] at hmem
    exact absurd (hk _ hmem) (by decide)
  | cons c t =>
    have hc := hstop c rfl
    -- the key is passed over, if no value follows it
    have skip (hvalue : c = '=' → k ≠ [] → ∀ d, t.head? = some d → ¬ IsCaptionChar d)
        (hscan : fieldsIn (k ++ c :: t) = fieldsIn t) :
        ScanStep bodyParamRegex (fun m => (m.str 1, m.str 2)) fieldsIn seen (k ++ c :: t) := by
      have hsplit : k ++ c :: t = (k ++ [c]) ++ t := by simp
      have hmatches := matchesAt_skip_key hk hc hvalue seen
      rw [hsplit] at hmatches hscan ⊢
      exact .skip (by simp) hmatches hscan
    by_cases hkey : c = '=' ∧ k ≠ []
    · obtain ⟨rfl, hne⟩ := hkey
      obtain ⟨v, q, rfl, hv, hq⟩ := exists_run IsCaptionChar t
      have hfields := fieldsIn_param ⟨hne, hk⟩ hv hq
      cases v with
      | nil => exact skip (fun _ _ => hq) hfields
      | cons d v =>
        obtain ⟨amps, rest, rfl, hamps, hrest⟩ := exists_run (fun c => c = ('&' : Byte)) q
        have hfirst := first_bodyParamRegex seen ⟨hne, hk⟩ ⟨List.cons_ne_nil d v, hv⟩ hamps hq
          fun h => hrest _ h rfl
        rw [fieldsIn_ampersands hamps] at hfields
        exact .take hfirst hfields
    · exact skip (fun h₁ h₂ => absurd ⟨h₁, h₂⟩ hkey) (fieldsIn_skip hk hc hkey t)

/-! ## `body_check` -/

/-- The value of the last field of a key. -/
def lastValue (key : Bytes) (fields : List (Bytes × Bytes)) : Bytes :=
  (fields.reverse.lookup key).getD []

/-- The texts that the fields of a body give. -/
def readTexts (fields : List (Bytes × Bytes)) : MemeTexts :=
  ⟨lastValue "memeSelect" fields, lastValue "topCaption" fields, lastValue "bottomCaption" fields⟩

/-- `s` contains word characters, any character and `jpg`. -/
def HasTemplateName (s : Bytes) : Prop :=
  ∃ u w c v, s = u ++ w ++ [c] ++ lit "jpg" ++ v ∧ (w ≠ [] ∧ ∀ d ∈ w, IsWordChar d) ∧
    c ≠ lf ∧ c ≠ cr

/-- The fields leave no text out. -/
structure Complete (fields : List (Bytes × Bytes)) : Prop where
  memeTemplate : HasTemplateName (lastValue "memeSelect" fields)
  topCaption : lit "topCaption" ∈ fields.map Prod.fst
  bottomCaption : lit "bottomCaption" ∈ fields.map Prod.fst

/-- An iteration sets the text of its key. -/
theorem bodyCheckStep_eq (texts : MemeTexts) (m : Match Byte) :
    bodyCheckStep texts m =
      ⟨([(m.str 1, m.str 2)].lookup (lit "memeSelect")).getD texts.memeTemplate,
        ([(m.str 1, m.str 2)].lookup (lit "topCaption")).getD texts.topCaption,
        ([(m.str 1, m.str 2)].lookup (lit "bottomCaption")).getD texts.bottomCaption⟩ := by
  have hone : ∀ (key : Bytes) (default : Bytes), ([(m.str 1, m.str 2)].lookup key).getD default =
      if m.str 1 = key then m.str 2 else default := by
    intro key default
    rw [List.lookup_cons, List.lookup_nil]
    by_cases hkey : m.str 1 = key
    · rw [if_pos hkey, hkey, beq_self_eq_true]
      rfl
    · rw [if_neg hkey, beq_false_of_ne (Ne.symm hkey)]
      rfl
  have hdistinct : lit "memeSelect" ≠ lit "topCaption" ∧ lit "memeSelect" ≠ lit "bottomCaption" ∧
      lit "topCaption" ≠ lit "bottomCaption" := by decide
  rw [hone, hone, hone]
  unfold bodyCheckStep
  dsimp only
  split_ifs with h₁ h₂ h₃ <;> simp_all

/-- The loop keeps the value of the last field of each key. -/
theorem foldl_bodyCheckStep_eq (iters : List (Match Byte)) (texts : MemeTexts) :
    iters.foldl bodyCheckStep texts =
      ⟨(((iters.map fun m => (m.str 1, m.str 2)).reverse.lookup (lit "memeSelect")).getD
          texts.memeTemplate),
        (((iters.map fun m => (m.str 1, m.str 2)).reverse.lookup (lit "topCaption")).getD
          texts.topCaption),
        (((iters.map fun m => (m.str 1, m.str 2)).reverse.lookup (lit "bottomCaption")).getD
          texts.bottomCaption)⟩ := by
  induction iters generalizing texts with
  | nil => rfl
  | cons m iters ih =>
    rw [List.foldl_cons, ih, bodyCheckStep_eq]
    simp only [List.map_cons, List.reverse_cons, List.lookup_append, Option.getD_or]

/-- The check of the template looks for a name anywhere in it. -/
theorem search_templateRegex {s : Bytes} :
    (templateRegex.search s).isSome = true ↔ HasTemplateName s := by
  rw [search_isSome_iff]
  constructor
  · rintro ⟨u, _, v, rfl, w, _, rfl, hw, c, _, rfl, hc, _, _, rfl, hjpg, rfl⟩
    obtain rfl := accepts_literal.mp hjpg
    obtain ⟨c, rfl, hdot⟩ := hc
    exact ⟨u, w, c, v, by simp, accepts_word.mp hw, of_decide_eq_true hdot⟩
  · rintro ⟨u, w, c, v, rfl, hw, hc⟩
    refine ⟨u, w ++ ([c] ++ (lit "jpg" ++ [])), v, by simp, w, _, rfl, accepts_word.mpr hw, [c], _,
      rfl, ⟨c, rfl, decide_eq_true hc⟩, _, _, rfl, accepts_literal.mpr rfl, rfl⟩

/-- The check of a caption asks for one caption character. -/
theorem search_captionRegex {s : Bytes} (hs : ∀ c ∈ s, IsCaptionChar c) :
    (captionRegex.search s).isSome = true ↔ s ≠ [] := by
  rw [search_isSome_iff]
  constructor
  · rintro ⟨u, w, v, rfl, hw⟩
    have := (accepts_captions.mp hw).1
    simp [this]
  · exact fun hne => ⟨[], s, [], by simp, accepts_captions.mpr ⟨hne, hs⟩⟩

/-- The last value of a key is that of a field, if there is one. -/
theorem lastValue_spec (key s : Bytes) :
    (lastValue key (fieldsIn s) ≠ [] ↔ key ∈ (fieldsIn s).map Prod.fst) ∧
      ∀ c ∈ lastValue key (fieldsIn s), IsCaptionChar c := by
  unfold lastValue
  cases hv : (fieldsIn s).reverse.lookup key with
  | none =>
    have hmissing : key ∉ (fieldsIn s).map Prod.fst := by
      intro hmem
      obtain ⟨f, hf, rfl⟩ := List.mem_map.mp hmem
      have hne := List.lookup_eq_none_iff.mp hv f (List.mem_reverse.mpr hf)
      simp at hne
    exact ⟨⟨fun h => absurd rfl h, fun h => absurd h hmissing⟩, fun c hc => by contradiction⟩
  | some v =>
    obtain ⟨before, after, hsplit, -⟩ := List.lookup_eq_some_iff.mp hv
    have hmem : (key, v) ∈ fieldsIn s := by
      rw [← List.mem_reverse, hsplit]
      simp
    obtain ⟨hne, hcaption⟩ := value_of_mem_fieldsIn _ hmem
    exact ⟨⟨fun _ => List.mem_map_of_mem hmem, fun _ => hne⟩, hcaption⟩

/-- **`body_check` in terms of the fields** of the decoded body. -/
theorem bodyCheck_eq_some_iff {body text : Bytes} (h : uriDecode body = .ok text)
    (texts : MemeTexts) :
    bodyCheck body = .ok (some texts) ↔
      Complete (fieldsIn text) ∧ texts = readTexts (fieldsIn text) := by
  have hread : (bodyParamRegex.findAll text).foldl bodyCheckStep ⟨"", "", ""⟩ =
      readTexts (fieldsIn text) := by
    rw [foldl_bodyCheckStep_eq, findAll_eq, map_matchesAt_bodyParamRegex]
    rfl
  obtain ⟨htop, htopChars⟩ := lastValue_spec "topCaption" text
  obtain ⟨hbottom, hbottomChars⟩ := lastValue_spec "bottomCaption" text
  have hnone : ∀ m : Option (Match Byte), m.isNone = true ↔ ¬ m.isSome = true := by
    intro m
    cases m <;> simp
  unfold bodyCheck
  rw [h]
  simp only [bind, Except.bind, pure, Except.pure]
  rw [hread]
  unfold readTexts
  dsimp only
  constructor
  · intro hbody
    split_ifs at hbody with h₁ h₂ h₃
    · cases hbody
    · cases hbody
    · cases hbody
    · rw [hnone, not_not] at h₁ h₂ h₃
      exact ⟨⟨search_templateRegex.mp h₁, htop.mp ((search_captionRegex htopChars).mp h₂),
        hbottom.mp ((search_captionRegex hbottomChars).mp h₃)⟩,
        (Option.some.inj (Except.ok.inj hbody)).symm⟩
  · rintro ⟨hcomplete, rfl⟩
    rw [if_neg, if_neg, if_neg]
    · rw [hnone, not_not, search_captionRegex hbottomChars]
      exact hbottom.mpr hcomplete.bottomCaption
    · rw [hnone, not_not, search_captionRegex htopChars]
      exact htop.mpr hcomplete.topCaption
    · rw [hnone, not_not, search_templateRegex]
      exact hcomplete.memeTemplate

/-! ## Forms -/

/-- The fields of the form that a meme is made with. -/
def memeFields (t a b : Bytes) : List (Bytes × Bytes) :=
  [("memeSelect", t), ("topCaption", a), ("bottomCaption", b)]

/-- A field as it was filled in, and as it is sent. -/
structure SentAs (literal : Byte → Prop) (f f' : Bytes × Bytes) : Prop where
  key : f'.1 = f.1
  value : Encodes literal f.2 f'.2

/-- A form is encoded if its values are. -/
theorem encodes_queryText {literal : Byte → Prop} (hword : ∀ c, IsWordChar c → literal c)
    (heq : literal '=') (hamp : literal '&') {fields sent : List (Bytes × Bytes)}
    (hkeys : ∀ f ∈ fields, ∀ c ∈ f.1, IsWordChar c)
    (h : List.Forall₂ (SentAs literal) fields sent) :
    Encodes literal (queryText fields) (queryText sent) := by
  have hparam : ∀ {f f' : Bytes × Bytes}, (∀ c ∈ f.1, IsWordChar c) → SentAs literal f f' →
      Encodes literal (paramText f) (paramText f') := by
    intro f f' hk hf
    unfold paramText
    rw [hf.key]
    exact ((Encodes.plain fun c hc => hword c (hk c hc)).append
      (.plain (s := lit "=") (by simpa [lit] using heq))).append hf.value
  induction h with
  | nil => exact .nil
  | @cons f f' fields sent hf hfields ih =>
    obtain ⟨hk, hrest⟩ := List.forall_mem_cons.mp hkeys
    have hih := ih hrest
    cases hfields with
    | nil => simpa [queryText] using hparam hk hf
    | cons hg hmore =>
      unfold queryText at hih ⊢
      simp only [List.map_cons, List.intercalate_cons_cons] at hih ⊢
      exact ((hparam hk hf).append (.plain (s := lit "&") (by simpa [lit] using hamp))).append hih

/-- The fields of a form with caption characters only are those that are filled
in. -/
theorem fieldsIn_queryText {fields : List (Bytes × Bytes)}
    (h : ∀ f ∈ fields, (f.1 ≠ [] ∧ ∀ c ∈ f.1, IsWordChar c) ∧ ∀ c ∈ f.2, IsCaptionChar c) :
    fieldsIn (queryText fields) = fields.filter (·.2 ≠ []) := by
  have hone : ∀ {f : Bytes × Bytes}, (f.1 ≠ [] ∧ ∀ c ∈ f.1, IsWordChar c) →
      (∀ c ∈ f.2, IsCaptionChar c) → fieldsIn (paramText f) = [f].filter (·.2 ≠ []) := by
    intro f hk hv
    have hfields := fieldsIn_param hk hv (s := []) (by simp)
    rw [paramText, List.append_assoc, ← List.append_nil f.2, hfields]
    by_cases hempty : f.2 = [] <;> simp [field, fieldsIn, fieldsFrom, hempty]
  induction fields with
  | nil => rfl
  | cons f fields ih =>
    obtain ⟨⟨hk, hv⟩, hfields⟩ := List.forall_mem_cons.mp h
    cases fields with
    | nil =>
      rw [queryText, List.map_singleton, List.intercalate_singleton]
      exact hone hk hv
    | cons g fields =>
      have htext : queryText (f :: g :: fields) =
          paramText f ++ ('&' : Byte) :: queryText (g :: fields) := by
        simp [queryText, List.intercalate_cons_cons, lit]
      rw [htext, fieldsIn, fieldsFrom_ampersand, ← fieldsIn, hone hk hv, ih hfields,
        ← List.filter_append, List.singleton_append]

/-- The value of a field, when keys are distinct and empty values are left out. -/
theorem lastValue_filter {fields : List (Bytes × Bytes)} (hkeys : (fields.map Prod.fst).Nodup)
    {f : Bytes × Bytes} (hf : f ∈ fields) : lastValue f.1 (fields.filter (·.2 ≠ [])) = f.2 := by
  unfold lastValue
  by_cases hempty : f.2 = []
  · rw [lookup_eq_none_of_not_mem, hempty]
    · rfl
    · intro hmem
      obtain ⟨g, hg, hgf⟩ := List.mem_map.mp hmem
      obtain ⟨hg, hne⟩ := List.mem_filter.mp (List.mem_reverse.mp hg)
      obtain rfl := List.inj_on_of_nodup_map hkeys hg hf hgf
      exact of_decide_eq_true hne hempty
  · rw [lookup_of_mem _ (List.mem_reverse.mpr (List.mem_filter.mpr ⟨hf, by simpa using hempty⟩))]
    · rfl
    · rw [List.map_reverse, List.nodup_reverse]
      exact hkeys.sublist (List.filter_sublist.map Prod.fst)

section Form

variable {t a b : Bytes} {fields sent : List (Bytes × Bytes)}
  (horder : fields.Perm (memeFields t a b))

include horder

theorem keys_of_perm_memeFields :
    (∀ f ∈ fields, f.1 ≠ [] ∧ ∀ c ∈ f.1, IsWordChar c) ∧ (fields.map Prod.fst).Nodup := by
  have hkeys : (memeFields t a b).map Prod.fst =
      ["memeSelect", "topCaption", "bottomCaption"] := rfl
  constructor
  · have hword : ∀ k ∈ (memeFields t a b).map Prod.fst, k ≠ [] ∧ ∀ c ∈ k, IsWordChar c := by
      rw [hkeys]
      decide
    exact fun f hf => hword f.1 (List.mem_map_of_mem (horder.mem_iff.mp hf))
  · rw [(horder.map Prod.fst).nodup_iff, hkeys]
    decide

/-- **A form with caption characters only is read as it was filled in**, in any
order of its fields. -/
theorem readTexts_queryText (hcaption : ∀ s ∈ [t, a, b], ∀ c ∈ s, IsCaptionChar c) :
    readTexts (fieldsIn (queryText fields)) = ⟨t, a, b⟩ := by
  obtain ⟨hword, hkeys⟩ := keys_of_perm_memeFields horder
  simp only [List.forall_mem_cons] at hcaption
  obtain ⟨ht, ha, hb, -⟩ := hcaption
  have hform : ∀ f ∈ fields, (f.1 ≠ [] ∧ ∀ c ∈ f.1, IsWordChar c) ∧
      ∀ c ∈ f.2, IsCaptionChar c := by
    intro f hf
    refine ⟨hword f hf, ?_⟩
    have hmem := horder.mem_iff.mp hf
    simp only [memeFields, List.mem_cons, List.not_mem_nil, or_false] at hmem
    rcases hmem with rfl | rfl | rfl
    · exact ht
    · exact ha
    · exact hb
  have hvalue : ∀ f ∈ memeFields t a b, lastValue f.1 (fields.filter (·.2 ≠ [])) = f.2 :=
    fun f hf => lastValue_filter hkeys (horder.mem_iff.mpr hf)
  rw [fieldsIn_queryText hform]
  simp only [memeFields, List.forall_mem_cons] at hvalue
  obtain ⟨h₁, h₂, h₃, -⟩ := hvalue
  exact MemeTexts.ext h₁ h₂ h₃

/-- The body of a form decodes to the text of the form. -/
theorem uriDecode_form {literal : Byte → Prop} (hliteral : ∀ c, literal c → c ≠ '%' ∧ c ≠ '+')
    (hsent : List.Forall₂ (SentAs literal) fields sent) :
    uriDecode (queryText sent) = .ok (queryText fields) := by
  have hword : ∀ c, IsWordChar c → c ≠ '%' ∧ c ≠ '+' := by
    intro c hc
    constructor <;> rintro rfl <;> exact absurd hc (by decide)
  refine uriDecode_encodes (fun _ h => h) (encodes_queryText hword (by decide) (by decide)
    (fun f hf => ((keys_of_perm_memeFields horder).1 f hf).2) (hsent.imp fun f f' hf => ?_))
  exact ⟨hf.key, hf.value.mono hliteral⟩

/-- **Every form with proper texts is accepted as it was filled in**, in any
order of its fields and however its bytes are sent. -/
theorem bodyCheck_form (ht : ∀ c ∈ t, IsCaptionChar c)
    (hname : ∃ u w v, t = u ++ w ++ lit ".jpg" ++ v ∧ w ≠ [] ∧ ∀ c ∈ w, IsWordChar c)
    (ha : a ≠ [] ∧ ∀ c ∈ a, IsCaptionChar c) (hb : b ≠ [] ∧ ∀ c ∈ b, IsCaptionChar c)
    (hsent : List.Forall₂ (SentAs IsCaptionChar) fields sent) :
    bodyCheck (queryText sent) = .ok (some ⟨t, a, b⟩) := by
  have hdecode := uriDecode_form horder (fun c hc => by
    constructor <;> rintro rfl <;> exact absurd hc (by decide)) hsent
  have hcaption : ∀ s ∈ [t, a, b], ∀ c ∈ s, IsCaptionChar c := by
    simp only [List.forall_mem_cons]
    exact ⟨ht, ha.2, hb.2, by simp⟩
  have hread := readTexts_queryText horder hcaption
  obtain ⟨htemplate, htop, hbottom⟩ := MemeTexts.mk.inj hread
  obtain ⟨u, w, v, hsplit, hw⟩ := hname
  refine (bodyCheck_eq_some_iff hdecode _).mpr ⟨⟨?_, ?_, ?_⟩, hread.symm⟩
  · rw [htemplate]
    exact ⟨u, w, '.', v, by rw [hsplit]; simp [lit], hw, by decide⟩
  · rw [← (lastValue_spec _ _).1, htop]
    exact ha.1
  · rw [← (lastValue_spec _ _).1, hbottom]
    exact hb.1

end Form

/-- Captions before the template, with a digit sent as `%35` and a blank as `+`. -/
theorem bodyCheck_form_mixed :
    bodyCheck (queryText [("topCaption", "%35"), ("bottomCaption", "+"),
      ("memeSelect", "cat.jpg")]) = .ok (some ⟨"cat.jpg", "5", " "⟩) := by
  have horder : [(lit "topCaption", lit "5"), (lit "bottomCaption", lit " "),
      (lit "memeSelect", lit "cat.jpg")].Perm (memeFields "cat.jpg" "5" " ") := by decide
  have hname : ∃ u w v, lit "cat.jpg" = u ++ w ++ lit ".jpg" ++ v ∧ w ≠ [] ∧
      ∀ c ∈ w, IsWordChar c := ⟨[], "cat", [], by decide, by decide, by decide⟩
  have hfive : Encodes IsCaptionChar "5" "%35" :=
    .cons (.percent (h := '3') (l := '5') (by decide) (by decide) (by decide)) .nil
  have hblank : Encodes IsCaptionChar " " "+" := .cons .plus .nil
  exact bodyCheck_form horder (by decide) hname (by decide) (by decide)
    (.cons ⟨rfl, hfive⟩ (.cons ⟨rfl, hblank⟩ (.cons ⟨rfl, .plain (by decide)⟩ .nil)))

/-! ## Any other form -/

/-- The body of a form, as a browser sends it. -/
def formBody (t a b : Bytes) : Bytes :=
  queryText [("memeSelect", formEncode t), ("topCaption", formEncode a),
    ("bottomCaption", formEncode b)]

theorem uriDecode_formBody (t a b : Bytes) :
    uriDecode (formBody t a b) = .ok (queryText (memeFields t a b)) := by
  have hliteral : ∀ c, IsUnreserved c → c ≠ '%' ∧ c ≠ '+' := by
    intro c hc
    constructor <;> rintro rfl <;> exact absurd hc (by decide)
  refine uriDecode_form (.refl _) hliteral ?_
  exact .cons ⟨rfl, encodes_formEncode t⟩ (.cons ⟨rfl, encodes_formEncode a⟩
    (.cons ⟨rfl, encodes_formEncode b⟩ .nil))

/-- **Exactly when a form is stored as it was filled in, or rejected**: it has
caption characters only, or the fields that its text spells leave a text out. -/
theorem form_exact_iff (t a b : Bytes) :
    (∀ texts, bodyCheck (formBody t a b) = .ok (some texts) → texts = ⟨t, a, b⟩) ↔
      (∀ s ∈ [t, a, b], ∀ c ∈ s, IsCaptionChar c) ∨
        ¬ Complete (fieldsIn (queryText (memeFields t a b))) := by
  have hcheck := fun texts => bodyCheck_eq_some_iff (uriDecode_formBody t a b) texts
  constructor
  · intro hexact
    by_cases hcomplete : Complete (fieldsIn (queryText (memeFields t a b)))
    · left
      -- what is stored comes from fields
      have hread := hexact _ ((hcheck _).mpr ⟨hcomplete, rfl⟩)
      obtain ⟨ht, ha, hb⟩ := MemeTexts.mk.inj hread
      have hchars := fun key => (lastValue_spec key (queryText (memeFields t a b))).2
      simp only [List.forall_mem_cons]
      exact ⟨fun c hc => hchars _ c (ht ▸ hc), fun c hc => hchars _ c (ha ▸ hc),
        fun c hc => hchars _ c (hb ▸ hc), by simp⟩
    · exact .inr hcomplete
  · rintro (hcaption | hmissing) texts haccepted
    · rw [((hcheck texts).mp haccepted).2, readTexts_queryText (.refl _) hcaption]
    · exact absurd ((hcheck texts).mp haccepted).1 hmissing

/-- Of the caption `no-one` only `no` is stored. -/
theorem form_caption_cut :
    bodyCheck (formBody "cat.jpg" "no-one" "hi") = .ok (some ⟨"cat.jpg", "no", "hi"⟩) ∧
      (⟨"cat.jpg", "no", "hi"⟩ : MemeTexts) ≠ ⟨"cat.jpg", "no-one", "hi"⟩ := by
  decide

end GittyUp
