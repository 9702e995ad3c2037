import GittyUp.Meme.UriLib

/-!
# Escapes (`uri_lib.cc`)

`UriEncode` escapes every byte that is not one of its plain characters, and
`UriDecode` undoes it (`uriDecode_uriEncode`). The other way round it is less
strict: what stands behind a `%` need not be two hexadecimal digits to be taken for
an escape (`decodesStrictly_iff`).
-/

namespace GittyUp

open Lib

/-! ## `UriEncode` -/

/-- The hexadecimal digit `d < 16`, in lower case. -/
def lowerHexDigit (d : Nat) : Byte := UInt8.ofNat (if d < 10 then 48 + d else 87 + d)

/-- `std::hex`: the text of a number. -/
def hexText (n : Nat) : Bytes :=
  if n = 0 then [lowerHexDigit 0] else (Nat.digits 16 n).reverse.map lowerHexDigit

/-- `std::setw` with `std::setfill`. -/
def setw (width : Nat) (fill : Byte) (text : Bytes) : Bytes :=
  List.replicate (width - text.length) fill ++ text

/-- `CharToHex`. -/
def charToHex (c : Byte) : Bytes := lit "%" ++ setw 2 '0' (hexText c.toNat)

/-- The `short` that a `char` is converted to. -/
def charShort (c : Byte) : Int := if c.toNat < 128 then c.toNat else c.toNat - 256

/-- A character that `UriEncode` leaves as it is. -/
def IsPlainChar (c : Byte) : Prop :=
  let t := charShort c
  t = 45 ∨ (48 ≤ t ∧ t ≤ 57) ∨ (65 ≤ t ∧ t ≤ 90) ∨ t = 95 ∨ (97 ≤ t ∧ t ≤ 122) ∨ t = 126

instance : DecidablePred IsPlainChar :=
  fun _ => inferInstanceAs (Decidable (_ ∨ _ ∨ _ ∨ _ ∨ _ ∨ _))

/-- `UriEncode`. -/
def uriEncode (toEncode : Bytes) : Bytes :=
  toEncode.flatMap fun c => if IsPlainChar c then [c] else charToHex c

example : uriEncode "1+1=2 %" = "1%2b1%3d2%20%25" := by decide

/-! ## Decoding undoes it -/

theorem lowerHexDigit_spec {d : Nat} (h : d < 16) :
    IsHexDigit (lowerHexDigit d) ∧ hexDigitValue (lowerHexDigit d) = d := by
  interval_cases d <;> decide

/-- The text of a byte has one digit or two. -/
theorem setw_hexText {n : Nat} (h : n < 256) :
    setw 2 '0' (hexText n) = [lowerHexDigit (n / 16), lowerHexDigit (n % 16)] := by
  unfold hexText
  by_cases hsmall : n < 16
  · have hdiv : n / 16 = 0 := by omega
    have hmod : n % 16 = n := by omega
    have htext : (if n = 0 then [lowerHexDigit 0]
        else (Nat.digits 16 n).reverse.map lowerHexDigit) = [lowerHexDigit n] := by
      by_cases hzero : n = 0
      · rw [if_pos hzero, hzero]
      · rw [if_neg hzero, Nat.digits_of_lt 16 n hzero hsmall]
        rfl
    rw [htext, hdiv, hmod]
    rfl
  · have hdigits : Nat.digits 16 n = [n % 16, n / 16] := by
      rw [Nat.digits_def' (by omega) (by omega),
        Nat.digits_of_lt 16 (n / 16) (by omega) (by omega)]
    rw [if_neg (by omega), hdigits]
    rfl

theorem sends_charToHex (literal : Byte → Prop) (c : Byte) : Sends literal c (charToHex c) := by
  rw [charToHex, setw_hexText c.toNat_lt]
  exact .digits (fun _ => lowerHexDigit_spec) c

theorem encodes_uriEncode (s : Bytes) : Encodes IsPlainChar s (uriEncode s) := by
  induction s with
  | nil => exact .nil
  | cons c s ih =>
    refine .cons ?_ ih
    dsimp only
    by_cases hc : IsPlainChar c
    · rw [if_pos hc]
      exact .plain hc
    · rw [if_neg hc]
      exact sends_charToHex _ c

/-- **`UriDecode (UriEncode (s)) = s`** for every byte string. -/
theorem uriDecode_uriEncode (s : Bytes) : uriDecode (uriEncode s) = .ok s := by
  refine uriDecode_encodes (fun c hc => ⟨?_, ?_⟩) (encodes_uriEncode s)
  · rintro rfl
    exact absurd hc (by decide)
  · rintro rfl
    exact absurd hc (by decide)

/-! ## What `HexToChar` accepts -/

/-- Two hexadecimal digits. -/
def IsHexPair (u : Bytes) : Prop := ∃ h l, u = [h, l] ∧ IsHexDigit h ∧ IsHexDigit l

/-- What is taken for an escape though it is not two digits: nothing at all, one
digit, one digit and something that is dropped, a blank or a sign and one digit. -/
inductive IsLax : Bytes → Prop
  | nothing : IsLax []
  | single {h : Byte} : IsHexDigit h → IsLax [h]
  | dropped {h c : Byte} : IsHexDigit h → ¬ IsHexDigit c → ¬ (h = '0' ∧ (c = 'x' ∨ c = 'X')) →
      IsLax [h, c]
  | behind {c h : Byte} : IsSpace c ∨ c = '+' ∨ c = '-' → IsHexDigit h → IsLax [c, h]

/-- Neither: the escape is rejected. -/
def IsRejected (u : Bytes) : Prop := ¬ IsHexPair u ∧ ¬ IsLax u

theorem takeWhile_hexDigits_spec (s : Bytes) : (∀ d ∈ s.takeWhile (IsHexDigit ·), IsHexDigit d) ∧
    (s.takeWhile (IsHexDigit ·)).length ≤ s.length :=
  ⟨fun _ hd => by simpa using List.mem_takeWhile_imp hd, (List.takeWhile_prefix _).length_le⟩

theorem hexDigits_spec (s : Bytes) :
    (∀ d ∈ hexDigits s, IsHexDigit d) ∧ (hexDigits s).length ≤ s.length := by
  unfold hexDigits
  split
  · next z x s =>
    by_cases hprefix : z = '0' ∧ (x = 'x' ∨ x = 'X')
    · rw [if_pos hprefix]
      obtain ⟨hall, hlen⟩ := takeWhile_hexDigits_spec s
      exact ⟨hall, Nat.le_add_right_of_le (Nat.le_add_right_of_le hlen)⟩
    · rw [if_neg hprefix]
      exact takeWhile_hexDigits_spec _
  · exact takeWhile_hexDigits_spec _

theorem hexDigitValue_lt {d : Byte} (h : IsHexDigit d) : hexDigitValue d < 16 := by
  unfold IsHexDigit IsDigit at h
  unfold hexDigitValue IsDigit
  simp only [UInt8.le_iff_toNat_le] at *
  split_ifs <;> simp at * <;> omega

theorem hexValue_lt {ds : Bytes} (h : ∀ d ∈ ds, IsHexDigit d) : hexValue ds < 16 ^ ds.length := by
  induction ds using List.reverseRecOn with
  | nil => exact Nat.one_pos
  | append_singleton ds d ih =>
    have hds := ih fun d hd => h d (List.mem_append_left _ hd)
    have hd := hexDigitValue_lt (h d (by simp))
    have hvalue : hexValue (ds ++ [d]) = 16 * hexValue ds + hexDigitValue d := by simp [hexValue]
    rw [hvalue, List.length_append, List.length_singleton, pow_succ]
    omega

theorem length_splitSign_le (s : Bytes) : (splitSign s).2.length ≤ s.length := by
  cases s with
  | nil => exact le_rfl
  | cons c s =>
    rw [splitSign]
    split_ifs
    · exact Nat.le_succ _
    · exact Nat.le_succ _
    · exact le_rfl

/-- No two characters spell a number that is out of range. -/
theorem hexToChar_ok_iff {u : Bytes} (hlen : u.length ≤ 2) : (∃ d, hexToChar u = .ok d) ↔
    u = [] ∨ hexDigits (splitSign (u.dropWhile (IsSpace ·))).2 ≠ [] := by
  unfold hexToChar
  by_cases hu : u = []
  · rw [if_pos hu]
    exact ⟨fun _ => .inl hu, fun _ => ⟨0, rfl⟩⟩
  · rw [if_neg hu, or_iff_right hu]
    have hdrop : (u.dropWhile (IsSpace ·)).length ≤ u.length := (List.dropWhile_suffix _).length_le
    have hsigned := (length_splitSign_le (u.dropWhile (IsSpace ·))).trans (hdrop.trans hlen)
    generalize splitSign (u.dropWhile (IsSpace ·)) = signed at hsigned ⊢
    obtain ⟨neg, s⟩ := signed
    obtain ⟨hall, hdigits⟩ := hexDigits_spec s
    have hs : s.length ≤ 2 := hsigned
    have hvalue : hexValue (hexDigits s) < 16 ^ 2 :=
      (hexValue_lt hall).trans_le (Nat.pow_le_pow_right (by omega) (by omega))
    dsimp only
    by_cases hnil : hexDigits s = []
    · rw [if_pos (.inl hnil)]
      exact ⟨fun ⟨d, hd⟩ => (nomatch hd), fun h => absurd hnil h⟩
    · rw [if_neg]
      · exact ⟨fun _ => hnil, fun _ => ⟨_, rfl⟩⟩
      · rintro (h | h)
        · exact hnil h
        · split_ifs at h <;> omega

theorem hexDigits_single_iff {h : Byte} : hexDigits [h] ≠ [] ↔ IsHexDigit h := by
  by_cases hh : IsHexDigit h <;> simp [hexDigits, hh]

theorem hexDigits_two_iff {h c : Byte} :
    hexDigits [h, c] ≠ [] ↔ IsHexDigit h ∧ ¬ (h = '0' ∧ (c = 'x' ∨ c = 'X')) := by
  rw [hexDigits]
  by_cases hprefix : h = '0' ∧ (c = 'x' ∨ c = 'X')
  · rw [if_pos hprefix]
    exact ⟨fun hne => absurd rfl hne, fun hh => absurd hprefix hh.2⟩
  · rw [if_neg hprefix, and_iff_left hprefix]
    by_cases hh : IsHexDigit h <;> simp [List.takeWhile_cons, hh]

theorem accepted_single_iff {h : Byte} : IsHexPair [h] ∨ IsLax [h] ↔ IsHexDigit h := by
  constructor
  · rintro (⟨_, _, hpair, -⟩ | hlax)
    · simp at hpair
    · cases hlax
      assumption
  · exact fun hh => .inr (.single hh)

theorem accepted_two_iff {c d : Byte} : IsHexPair [c, d] ∨ IsLax [c, d] ↔
    (IsHexDigit c ∧ ¬ (c = '0' ∧ (d = 'x' ∨ d = 'X'))) ∨
      (IsSpace c ∨ c = '+' ∨ c = '-') ∧ IsHexDigit d := by
  constructor
  · rintro (⟨_, _, hpair, hc, hd⟩ | hlax)
    · obtain ⟨rfl, rfl⟩ : c = _ ∧ d = _ := by simpa using hpair
      exact .inl ⟨hc, fun hprefix => hprefix.2.elim hd.plain.2.2.2.1 hd.plain.2.2.2.2⟩
    · cases hlax with
      | dropped hc hd hprefix => exact .inl ⟨hc, hprefix⟩
      | behind hc hd => exact .inr ⟨hc, hd⟩
  · rintro (⟨hc, hprefix⟩ | ⟨hc, hd⟩)
    · by_cases hd : IsHexDigit d
      · exact .inl ⟨c, d, rfl, hc, hd⟩
      · exact .inr (.dropped hc hd hprefix)
    · exact .inr (.behind hc hd)

/-- One character behind a blank or a sign is read as if it stood alone. -/
theorem hexDigits_behind_iff {d : Byte} :
    hexDigits (splitSign ([d].dropWhile (IsSpace ·))).2 ≠ [] ↔ IsHexDigit d := by
  by_cases hd : IsHexDigit d
  · obtain ⟨hspace, hminus, hplus, -⟩ := hd.plain
    rw [List.dropWhile_cons_of_neg (by simpa using hspace), splitSign, if_neg hminus, if_neg hplus]
    exact hexDigits_single_iff
  · refine iff_of_false (fun hne => hne ?_) hd
    by_cases hspace : IsSpace d
    · rw [List.dropWhile_cons_of_pos (by simpa using hspace)]
      rfl
    · rw [List.dropWhile_cons_of_neg (by simpa using hspace), splitSign]
      split_ifs
      · rfl
      · rfl
      · exact not_not.mp (mt hexDigits_single_iff.mp hd)

/-- `HexToChar` accepts two digits, and what is lax. -/
theorem hexToChar_accepts_iff {u : Bytes} (hlen : u.length ≤ 2) :
    (∃ d, hexToChar u = .ok d) ↔ IsHexPair u ∨ IsLax u := by
  rw [hexToChar_ok_iff hlen]
  match u, hlen with
  | [], _ => exact ⟨fun _ => .inr .nothing, fun _ => .inl rfl⟩
  | [d], _ =>
    rw [accepted_single_iff, or_iff_right (List.cons_ne_nil _ _), hexDigits_behind_iff]
  | [c, d], _ =>
    rw [accepted_two_iff, or_iff_right (List.cons_ne_nil _ _)]
    by_cases hblank : IsSpace c
    · have hc : ¬ IsHexDigit c := fun hc => hc.plain.1 hblank
      rw [List.dropWhile_cons_of_pos (by simpa using hblank), hexDigits_behind_iff,
        or_iff_right fun h => hc h.1, and_iff_right (.inl hblank)]
    · rw [List.dropWhile_cons_of_neg (by simpa using hblank), splitSign]
      by_cases hsign : c = '-' ∨ c = '+'
      · have hc : ¬ IsHexDigit c := fun hc => hsign.elim hc.plain.2.1 hc.plain.2.2.1
        have hrest : (if c = '-' then (true, [d]) else if c = '+' then (false, [d])
            else (false, [c, d])).2 = [d] := by
          rcases hsign with rfl | rfl <;> rfl
        rw [hrest, hexDigits_single_iff, or_iff_right fun h => hc h.1,
          and_iff_right (.inr hsign.symm)]
      · have hneither : ¬ (IsSpace c ∨ c = '+' ∨ c = '-') := fun h =>
          h.elim hblank fun h => hsign h.symm
        rw [not_or] at hsign
        rw [if_neg hsign.1, if_neg hsign.2, hexDigits_two_iff]
        exact (or_iff_left fun h => hneither h.1).symm

/-! ## What `UriDecode` accepts -/

/-- The scan of `UriDecode`: what it takes for escapes, behind their `%`. -/
def escapesLoop : Nat → Bytes → List Bytes
  | _, [] => []
  | skip + 1, _ :: s => escapesLoop skip s
  | 0, c :: s => if c = '%' then s.take 2 :: escapesLoop 2 s else escapesLoop 0 s

/-- The escapes of a string, from left to right. -/
def escapes (s : Bytes) : List Bytes := escapesLoop 0 s

example : escapes "a%2b%%41+%4" = [lit "2b", lit "%4", lit "4"] := by decide

theorem escapesLoop_skip (n : Nat) (s : Bytes) : escapesLoop n s = escapes (s.drop n) := by
  induction n generalizing s with
  | zero => rfl
  | succ n ih =>
    cases s with
    | nil => rfl
    | cons c s => exact ih s

theorem escapes_percent (s : Bytes) :
    escapes (('%' : Byte) :: s) = s.take 2 :: escapes (s.drop 2) := by
  rw [← escapesLoop_skip]
  rfl

theorem escapes_other {c : Byte} (hc : c ≠ '%') (s : Bytes) : escapes (c :: s) = escapes s := by
  rw [escapes, escapesLoop, if_neg hc]
  rfl

/-- `UriDecode` returns if `HexToChar` accepts every escape. -/
theorem uriDecode_ok_iff (s : Bytes) :
    (∃ out, uriDecode s = .ok out) ↔ ∀ u ∈ escapes s, IsHexPair u ∨ IsLax u := by
  induction s using scan_induction with
  | nil => exact ⟨fun _ u hu => (nomatch hu), fun _ => ⟨[], rfl⟩⟩
  | other c s hc ih =>
    rw [escapes_other hc, ← ih, uriDecode_other hc]
    cases uriDecode s with
    | ok out => exact ⟨fun _ => ⟨out, rfl⟩, fun _ => ⟨_, rfl⟩⟩
    | error e => exact ⟨fun ⟨_, h⟩ => (nomatch h), fun ⟨_, h⟩ => (nomatch h)⟩
  | percent s ih =>
    rw [escapes_percent, List.forall_mem_cons, ← ih, uriDecode_percent,
      ← hexToChar_accepts_iff (List.length_take_le 2 s)]
    cases hexToChar (s.take 2) with
    | error e => exact ⟨fun ⟨_, h⟩ => (nomatch h), fun ⟨⟨_, h⟩, _⟩ => (nomatch h)⟩
    | ok d =>
      cases uriDecode (s.drop 2) with
      | ok out => exact ⟨fun _ => ⟨⟨d, rfl⟩, out, rfl⟩, fun _ => ⟨_, rfl⟩⟩
      | error e => exact ⟨fun ⟨_, h⟩ => (nomatch h), fun ⟨_, _, h⟩ => (nomatch h)⟩

/-! ## What is well formed -/

/-- A byte that means itself in an encoded string. -/
def IsVerbatim (c : Byte) : Prop := c ≠ '%' ∧ c ≠ '+'

theorem Encodes.isHexPair {out s : Bytes} (h : Encodes IsVerbatim out s) :
    ∀ u ∈ escapes s, IsHexPair u := by
  induction h with
  | nil => exact fun u hu => (nomatch hu)
  | cons hsend _ ih =>
    cases hsend with
    | plain hc =>
      rw [List.singleton_append, escapes_other hc.1]
      exact ih
    | plus =>
      rw [List.singleton_append, escapes_other (by decide)]
      exact ih
    | percent hh hl _ =>
      show ∀ u ∈ escapes (('%' : Byte) :: _ :: _ :: _), IsHexPair u
      rw [escapes_percent]
      exact List.forall_mem_cons.mpr ⟨⟨_, _, rfl, hh, hl⟩, ih⟩

/-- Two digits name a byte. -/
theorem sends_hexPair {h l : Byte} (hh : IsHexDigit h) (hl : IsHexDigit l) :
    ∃ c, Sends IsVerbatim c ['%', h, l] := by
  have hvalue : (UInt8.ofNat (16 * hexDigitValue h + hexDigitValue l)).toNat =
      16 * hexDigitValue h + hexDigitValue l := by
    have hlt := hexDigitValue_lt hh
    have hlt' := hexDigitValue_lt hl
    exact UInt8.toNat_ofNat_of_lt' (Nat.lt_of_lt_of_le (m := 256) (by omega) (by decide))
  exact ⟨_, .percent hh hl hvalue.symm⟩

/-- A string is well formed if every escape has its two digits. -/
theorem encodes_iff (s : Bytes) :
    (∃ out, Encodes IsVerbatim out s) ↔ ∀ u ∈ escapes s, IsHexPair u := by
  refine ⟨fun ⟨out, h⟩ => h.isHexPair, fun h => ?_⟩
  induction s using scan_induction with
  | nil => exact ⟨[], .nil⟩
  | other c s hc ih =>
    rw [escapes_other hc] at h
    obtain ⟨out, hout⟩ := ih h
    by_cases hplus : c = '+'
    · subst hplus
      exact ⟨_, .cons .plus hout⟩
    · exact ⟨_, .cons (.plain ⟨hc, hplus⟩) hout⟩
  | percent s ih =>
    rw [escapes_percent, List.forall_mem_cons] at h
    obtain ⟨⟨high, low, htake, hhigh, hlow⟩, hrest⟩ := h
    obtain ⟨out, hout⟩ := ih hrest
    have hs : s = high :: low :: s.drop 2 := by
      rw [← List.take_append_drop 2 s, htake]
      simp
    obtain ⟨c, hsend⟩ := sends_hexPair hhigh hlow
    have hencodes := Encodes.cons hsend hout
    rw [hs]
    exact ⟨_, hencodes⟩

/-- `UriDecode` returns a value exactly if the string is well formed and encodes
that value: each escape replaced by the byte it names, each `+` by a blank. -/
def DecodesStrictly (s : Bytes) : Prop := ∀ out, uriDecode s = .ok out ↔ Encodes IsVerbatim out s

/-- **`UriDecode` is strict about a string exactly if every escape in it has its two
digits, or one is rejected.** -/
theorem decodesStrictly_iff (s : Bytes) : DecodesStrictly s ↔
    (∀ u ∈ escapes s, IsHexPair u) ∨ ∃ u ∈ escapes s, IsRejected u := by
  have hdecodes : ∀ out, Encodes IsVerbatim out s → uriDecode s = .ok out := fun out h =>
    uriDecode_encodes (fun c hc => hc) h
  constructor
  · intro h
    by_cases hrejected : ∃ u ∈ escapes s, IsRejected u
    · exact .inr hrejected
    · left
      have haccepted : ∀ u ∈ escapes s, IsHexPair u ∨ IsLax u := fun u hu => by
        by_contra hne
        exact hrejected ⟨u, hu, not_or.mp hne⟩
      obtain ⟨out, hout⟩ := (uriDecode_ok_iff s).mpr haccepted
      exact (encodes_iff s).mp ⟨out, (h out).mp hout⟩
  · rintro (hpairs | ⟨u, hu, hrejected⟩) out
    · refine ⟨fun hout => ?_, hdecodes out⟩
      obtain ⟨out', h⟩ := (encodes_iff s).mpr hpairs
      obtain rfl := Except.ok.inj (hout.symm.trans (hdecodes out' h))
      exact h
    · refine iff_of_false (fun hout => ?_) fun h => ?_
      · exact ((uriDecode_ok_iff s).mp ⟨out, hout⟩ u hu).elim hrejected.1 hrejected.2
      · exact hrejected.1 ((encodes_iff s).mp ⟨out, h⟩ u hu)

/-- `%4g` is decoded to the byte 4, and the `g` is gone; a `%` at the end is a NUL. -/
theorem uriDecode_lax : uriDecode "%4g" = .ok [4] ∧ ¬ DecodesStrictly "%4g" ∧
    uriDecode "100%" = .ok (lit "100" ++ [0]) ∧ ¬ DecodesStrictly "100%" := by
  have hlax : ∀ {s out : Bytes}, uriDecode s = .ok out →
      (¬ ∀ u ∈ escapes s, IsHexPair u) → ¬ DecodesStrictly s := fun hout hpairs h =>
    hpairs ((encodes_iff _).mp ⟨_, (h _).mp hout⟩)
  have hdropped : uriDecode "%4g" = .ok [4] := by decide
  have hend : uriDecode "100%" = .ok (lit "100" ++ [0]) := by decide
  refine ⟨hdropped, hlax hdropped fun h => ?_, hend, hlax hend fun h => ?_⟩
  · obtain ⟨high, low, hpair, -, hlow⟩ := h (lit "4g") (by decide)
    obtain ⟨-, rfl⟩ : high = '4' ∧ low = 'g' := by simpa [lit, eq_comm] using hpair
    exact absurd hlow (by decide)
  · obtain ⟨high, low, hpair, -⟩ := h [] (by decide)
    exact absurd hpair (by simp)

end GittyUp
