import GittyUp.Lib.Numeral

/-!
# URI decoding (`uri_lib.cc`)

`Encodes` lists the ways to send a value in a form; `uriDecode_encodes` says that
decoding undoes each of them.
-/

namespace GittyUp

open Lib

/-- `isxdigit`. -/
def IsHexDigit (c : Byte) : Prop := IsDigit c ∨ ('a' ≤ c ∧ c ≤ 'f') ∨ ('A' ≤ c ∧ c ≤ 'F')

instance : DecidablePred IsHexDigit := fun _ => inferInstanceAs (Decidable (_ ∨ _ ∨ _))

/-- The value of a hexadecimal digit. -/
def hexDigitValue (c : Byte) : Nat :=
  if IsDigit c then c.toNat - 48 else if c ≤ 'F' then c.toNat - 55 else c.toNat - 87

/-- The value of a run of hexadecimal digits. -/
def hexValue (ds : Bytes) : Nat := ds.foldl (fun v d => 16 * v + hexDigitValue d) 0

/-- The digits that `std::hex` extraction consumes: a prefix `0x` is skipped. -/
def hexDigits : Bytes → Bytes
  | z :: x :: s =>
    if z = '0' ∧ (x = 'x' ∨ x = 'X') then s.takeWhile (IsHexDigit ·)
    else (z :: x :: s).takeWhile (IsHexDigit ·)
  | s => s.takeWhile (IsHexDigit ·)

/-- `HexToChar`: the extraction of a `short` from a stream skips blanks, takes a
sign, and fails without digits or out of range. -/
def hexToChar (str : Bytes) : Except StdException Byte :=
  if str = [] then .ok 0
  else
    let (neg, s) := splitSign (str.dropWhile (IsSpace ·))
    let ds := hexDigits s
    let c : Int := if neg then -(hexValue ds : Int) else hexValue ds
    if ds = [] ∨ c < -2 ^ 15 ∨ 2 ^ 15 ≤ c then .error (.runtimeError "stream decode failure")
    else .ok (UInt8.ofInt c)

/-- The loop of `UriDecode`, with the number of characters that `i += 2` skips. -/
def uriDecodeLoop : Nat → Bytes → Except StdException Bytes
  | _, [] => .ok []
  | skip + 1, _ :: s => uriDecodeLoop skip s
  | 0, c :: s =>
    if c = '%' then do
      let d ← hexToChar (s.take 2)
      let out ← uriDecodeLoop 2 s
      return d :: out
    else do
      let out ← uriDecodeLoop 0 s
      return (if c = '+' then (' ' : Byte) else c) :: out

/-- `UriDecode`. -/
def uriDecode (toDecode : Bytes) : Except StdException Bytes := uriDecodeLoop 0 toDecode

example : uriDecode "a%2b+%4A" = .ok "a+ J" := by decide

example : uriDecode "100%zz" = .error (.runtimeError "stream decode failure") := by decide

theorem hexToChar_error {s : Bytes} {e : StdException} (h : hexToChar s = .error e) :
    e = .runtimeError "stream decode failure" := by
  unfold hexToChar at h
  dsimp only at h
  split_ifs at h
  all_goals exact (Except.error.inj h).symm

/-! ## The scan -/

theorem uriDecodeLoop_skip (n : Nat) (s : Bytes) : uriDecodeLoop n s = uriDecode (s.drop n) := by
  induction n generalizing s with
  | zero => rfl
  | succ n ih =>
    cases s with
    | nil => rfl
    | cons c s => exact ih s

theorem uriDecode_percent (s : Bytes) : uriDecode (('%' : Byte) :: s) = do
    let d ← hexToChar (s.take 2)
    let out ← uriDecode (s.drop 2)
    return d :: out := by
  rw [← uriDecodeLoop_skip]
  rfl

theorem uriDecode_other {c : Byte} (hc : c ≠ '%') (s : Bytes) :
    uriDecode (c :: s) = ((if c = '+' then (' ' : Byte) else c) :: ·) <$> uriDecode s := by
  rw [uriDecode, uriDecodeLoop, if_neg hc]
  rfl

/-- Induction along the scan of a string. -/
theorem scan_induction {P : Bytes → Prop} (nil : P [])
    (other : ∀ (c : Byte) (s : Bytes), c ≠ '%' → P s → P (c :: s))
    (percent : ∀ s, P (s.drop 2) → P (('%' : Byte) :: s)) (s : Bytes) : P s := by
  induction hn : s.length using Nat.strong_induction_on generalizing s with
  | _ n ih =>
    subst hn
    cases s with
    | nil => exact nil
    | cons c s =>
      by_cases hc : c = '%'
      · subst hc
        refine percent s (ih _ ?_ _ rfl)
        rw [List.length_drop, List.length_cons]
        omega
      · exact other c s hc (ih _ (Nat.lt_succ_self _) _ rfl)

/-- Decoding throws one exception only. -/
theorem uriDecode_error {s : Bytes} {e : StdException} (h : uriDecode s = .error e) :
    e = .runtimeError "stream decode failure" := by
  induction s using scan_induction with
  | nil => contradiction
  | other c s hc ih =>
    rw [uriDecode_other hc] at h
    cases hs : uriDecode s with
    | ok out =>
      rw [hs] at h
      contradiction
    | error e' =>
      rw [hs] at h
      exact ih (hs.trans h)
  | percent s ih =>
    rw [uriDecode_percent] at h
    cases hd : hexToChar (s.take 2) with
    | error e' =>
      rw [hd] at h
      obtain rfl := Except.error.inj h
      exact hexToChar_error hd
    | ok d =>
      rw [hd] at h
      cases hs : uriDecode (s.drop 2) with
      | ok out =>
        rw [hs] at h
        contradiction
      | error e' =>
        rw [hs] at h
        exact ih (hs.trans h)

/-! ## Decoding undoes encoding -/

/-- A way to send the byte `c`, if the bytes that may stand for themselves are
those of `literal`. -/
inductive Sends (literal : Byte → Prop) : Byte → Bytes → Prop
  | plain {c : Byte} : literal c → Sends literal c [c]
  | plus : Sends literal ' ' ['+']
  | percent {c h l : Byte} : IsHexDigit h → IsHexDigit l →
      16 * hexDigitValue h + hexDigitValue l = c.toNat → Sends literal c ['%', h, l]

/-- A way to send a value, byte by byte. -/
inductive Encodes (literal : Byte → Prop) : Bytes → Bytes → Prop
  | nil : Encodes literal [] []
  | cons {c : Byte} {s u w : Bytes} : Sends literal c u → Encodes literal s w →
      Encodes literal (c :: s) (u ++ w)

theorem Sends.mono {p q : Byte → Prop} (hpq : ∀ c, p c → q c) {c : Byte} {u : Bytes}
    (h : Sends p c u) : Sends q c u := by
  cases h with
  | plain hc => exact .plain (hpq c hc)
  | plus => exact .plus
  | percent hh hl hc => exact .percent hh hl hc

theorem Encodes.mono {p q : Byte → Prop} (hpq : ∀ c, p c → q c) {s w : Bytes}
    (h : Encodes p s w) : Encodes q s w := by
  induction h with
  | nil => exact .nil
  | cons hc _ ih => exact .cons (hc.mono hpq) ih

theorem Encodes.append {literal : Byte → Prop} {s s' w w' : Bytes} (h : Encodes literal s w)
    (h' : Encodes literal s' w') : Encodes literal (s ++ s') (w ++ w') := by
  induction h with
  | nil => exact h'
  | cons hc _ ih =>
    rw [List.append_assoc]
    exact .cons hc ih

theorem Encodes.plain {literal : Byte → Prop} {s : Bytes} (h : ∀ c ∈ s, literal c) :
    Encodes literal s s := by
  induction s with
  | nil => exact .nil
  | cons c s ih =>
    obtain ⟨hc, hs⟩ := List.forall_mem_cons.mp h
    exact .cons (.plain hc) (ih hs)

/-- A hexadecimal digit is not a blank, a sign or an `x`. -/
theorem IsHexDigit.plain {c : Byte} (h : IsHexDigit c) :
    ¬ IsSpace c ∧ c ≠ '-' ∧ c ≠ '+' ∧ c ≠ 'x' ∧ c ≠ 'X' := by
  unfold IsHexDigit IsDigit at h
  unfold IsSpace
  simp only [UInt8.le_iff_toNat_le, ne_eq, ← UInt8.toNat_inj] at *
  simp at *
  omega

/-- Two hexadecimal digits are read as the byte that they spell. -/
theorem hexToChar_digits {c h l : Byte} (hh : IsHexDigit h) (hl : IsHexDigit l)
    (hc : 16 * hexDigitValue h + hexDigitValue l = c.toNat) : hexToChar [h, l] = .ok c := by
  obtain ⟨hspace, hminus, hplus, -⟩ := hh.plain
  obtain ⟨-, -, -, hx, hX⟩ := hl.plain
  have hdrop : List.dropWhile (fun c => decide (IsSpace c)) [h, l] = [h, l] :=
    List.dropWhile_cons_of_neg (by simpa using hspace)
  have hsign : splitSign [h, l] = (false, [h, l]) := by
    rw [splitSign, if_neg hminus, if_neg hplus]
  have hdigits : hexDigits [h, l] = [h, l] := by
    rw [hexDigits, if_neg fun hprefix => hprefix.2.elim hx hX]
    exact List.takeWhile_eq_self_iff.mpr (by simp [hh, hl])
  have hvalue : hexValue [h, l] = c.toNat := by
    rw [← hc]
    simp [hexValue]
  have hlt : c.toNat < 256 := c.toNat_lt
  unfold hexToChar
  rw [if_neg (List.cons_ne_nil _ _), hdrop, hsign]
  dsimp only
  rw [hdigits, hvalue]
  simp only [Bool.false_eq_true, if_false]
  rw [if_neg (by simp; omega)]
  have hbyte : ((c.toNat : Int) % 2 ^ 8).toNat = c.toNat := by omega
  rw [UInt8.ofInt, hbyte, UInt8.ofNat_toNat]

/-- **Decoding undoes every way of encoding.** -/
theorem uriDecode_encodes {literal : Byte → Prop} (hliteral : ∀ c, literal c → c ≠ '%' ∧ c ≠ '+')
    {s w : Bytes} (h : Encodes literal s w) : uriDecode w = .ok s := by
  induction h with
  | nil => rfl
  | @cons c s u w hc _ ih =>
    cases hc with
    | plain hc =>
      obtain ⟨hpercent, hplus⟩ := hliteral c hc
      rw [List.singleton_append, uriDecode_other hpercent, if_neg hplus, ih]
      rfl
    | plus =>
      rw [List.singleton_append, uriDecode_other (by decide), ih]
      rfl
    | @percent _ h l hh hl hc =>
      have hdigits : hexToChar ([h, l] ++ w |>.take 2) = .ok c := hexToChar_digits hh hl hc
      show uriDecode (('%' : Byte) :: ([h, l] ++ w)) = _
      rw [uriDecode_percent, hdigits]
      show (do
        let out ← uriDecode w
        return c :: out) = _
      rw [ih]
      rfl

/-! ## Form encoding -/

/-- A byte that a form sends as it is. -/
def IsUnreserved (c : Byte) : Prop :=
  IsDigit c ∨ ('a' ≤ c ∧ c ≤ 'z') ∨ ('A' ≤ c ∧ c ≤ 'Z') ∨ c = '-' ∨ c = '_' ∨ c = '.' ∨ c = '!' ∨
    c = '~'

instance : DecidablePred IsUnreserved :=
  fun _ => inferInstanceAs (Decidable (_ ∨ _ ∨ _ ∨ _ ∨ _ ∨ _ ∨ _ ∨ _))

/-- The hexadecimal digit `d < 16`. -/
def hexDigit (d : Nat) : Byte := UInt8.ofNat (if d < 10 then 48 + d else 55 + d)

/-- What a form sends for a byte. -/
def formEncodeByte (c : Byte) : Bytes :=
  if IsUnreserved c then [c]
  else if c = ' ' then ['+']
  else ['%', hexDigit (c.toNat / 16), hexDigit (c.toNat % 16)]

/-- What a form sends for a value. -/
def formEncode (s : Bytes) : Bytes := s.flatMap formEncodeByte

example : formEncode "it's 5 & more" = "it%27s+5+%26+more" := by decide

theorem hexDigit_spec {d : Nat} (h : d < 16) :
    IsHexDigit (hexDigit d) ∧ hexDigitValue (hexDigit d) = d := by
  interval_cases d <;> decide

/-- A byte is sent as its two digits, in whatever case they are written. -/
theorem Sends.digits {literal : Byte → Prop} {digit : Nat → Byte}
    (h : ∀ d < 16, IsHexDigit (digit d) ∧ hexDigitValue (digit d) = d) (c : Byte) :
    Sends literal c ['%', digit (c.toNat / 16), digit (c.toNat % 16)] := by
  have hlt : c.toNat < 256 := c.toNat_lt
  obtain ⟨hhigh, hhighValue⟩ := h (c.toNat / 16) (by omega)
  obtain ⟨hlow, hlowValue⟩ := h (c.toNat % 16) (by omega)
  refine .percent hhigh hlow ?_
  rw [hhighValue, hlowValue]
  omega

theorem sends_formEncodeByte (c : Byte) : Sends IsUnreserved c (formEncodeByte c) := by
  unfold formEncodeByte
  split_ifs with h₁ h₂
  · exact .plain h₁
  · subst h₂
    exact .plus
  · exact .digits (fun _ => hexDigit_spec) c

theorem encodes_formEncode (s : Bytes) : Encodes IsUnreserved s (formEncode s) := by
  induction s with
  | nil => exact .nil
  | cons c s ih => exact .cons (sends_formEncodeByte c) ih

end GittyUp
