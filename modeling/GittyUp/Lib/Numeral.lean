import GittyUp.Lib.Bytes
import Mathlib.Data.Nat.Digits.Lemmas
import Mathlib.Data.List.TakeWhile

/-!
# Numerals of the C++ standard library

`std::to_string` on a non-negative value and `std::stoi` (32-bit `int`), with
the exceptions the latter throws: `stoi` skips leading blanks, takes an optional
sign and the longest run of digits, and ignores what follows.
-/

namespace Lib

/-- The standard exceptions the modelled code throws. -/
inductive StdException where
  | invalidArgument
  | outOfRange
  | runtimeError (what : String)
  deriving DecidableEq, Repr

/-- `isspace` in the C locale. -/
def IsSpace (c : Byte) : Prop := c = ' ' ∨ (9 ≤ c ∧ c ≤ 13)

/-- `isdigit`. -/
def IsDigit (c : Byte) : Prop := '0' ≤ c ∧ c ≤ '9'

instance : DecidablePred IsSpace := fun _ => inferInstanceAs (Decidable (_ ∨ _))
instance : DecidablePred IsDigit := fun _ => inferInstanceAs (Decidable (_ ∧ _))

/-- The digit `d < 10`. -/
def digit (d : Nat) : Byte := UInt8.ofNat (48 + d)

/-- `std::to_string`. -/
def decimal (n : Nat) : Bytes :=
  if n = 0 then [digit 0] else (Nat.digits 10 n).reverse.map digit

/-- The value of a run of digits. -/
def digitsValue (ds : Bytes) : Nat := ds.foldl (fun v d => 10 * v + (d.toNat - 48)) 0

/-- The optional sign of a numeral: whether it is a minus, and what follows. -/
def splitSign : Bytes → Bool × Bytes
  | [] => (false, [])
  | c :: s => if c = '-' then (true, s) else if c = '+' then (false, s) else (false, c :: s)

/-- `std::stoi`. -/
def stoi (s : Bytes) : Except StdException Int :=
  let (neg, s) := splitSign (s.dropWhile (IsSpace ·))
  let ds := s.takeWhile (IsDigit ·)
  if ds = [] then .error .invalidArgument
  else
    let v : Int := if neg then -(digitsValue ds : Int) else digitsValue ds
    if v < -2 ^ 31 ∨ 2 ^ 31 ≤ v then .error .outOfRange else .ok v

/-- The integer that a text as a whole is the decimal numeral of: an optional sign
and digits, nothing else. -/
def numeral (text : Bytes) : Option Int :=
  let ds := (splitSign text).2
  if ds ≠ [] ∧ ∀ d ∈ ds, IsDigit d then
    some (if (splitSign text).1 then -(digitsValue ds : Int) else digitsValue ds)
  else none

/-- The conversion of a `size_t` to `int`. -/
def intOfSize (n : Nat) : Int := ((n + 2 ^ 31) % 2 ^ 32 : Nat) - (2 ^ 31 : Nat)

theorem intOfSize_eq_iff (n : Nat) : intOfSize n = n ↔ n < 2 ^ 31 := by
  unfold intOfSize
  omega

/-- `atoi` (undefined in C where the value is no `int`). -/
def atoi (s : Bytes) : Int :=
  let (neg, s) := splitSign ((cStr s).dropWhile (IsSpace ·))
  let ds := s.takeWhile (IsDigit ·)
  if neg then -(digitsValue ds : Int) else digitsValue ds

/-! ## `stoi` undoes `to_string` -/

theorem isDigit_digit {d : Nat} (h : d < 10) : IsDigit (digit d) := by
  interval_cases d <;> decide

theorem digit_toNat {d : Nat} (h : d < 10) : (digit d).toNat - 48 = d := by
  interval_cases d <;> decide

theorem not_isSpace_of_isDigit {c : Byte} (h : IsDigit c) : ¬ IsSpace c := by
  unfold IsDigit at h
  unfold IsSpace
  simp only [UInt8.le_iff_toNat_le, ← UInt8.toNat_inj] at *
  simp at *
  omega

theorem splitSign_of_isDigit {c : Byte} (h : IsDigit c) (s : Bytes) :
    splitSign (c :: s) = (false, c :: s) := by
  have hminus : c ≠ '-' := by rintro rfl; revert h; decide
  have hplus : c ≠ '+' := by rintro rfl; revert h; decide
  rw [splitSign, if_neg hminus, if_neg hplus]

theorem digitsValue_append (ds : Bytes) (d : Byte) :
    digitsValue (ds ++ [d]) = 10 * digitsValue ds + (d.toNat - 48) := by
  simp [digitsValue]

theorem digitsValue_map_digit (l : List Nat) (h : ∀ d ∈ l, d < 10) :
    digitsValue (l.reverse.map digit) = Nat.ofDigits 10 l := by
  induction l with
  | nil => rfl
  | cons d l ih =>
    obtain ⟨hd, hl⟩ := List.forall_mem_cons.mp h
    rw [List.reverse_cons, List.map_append, List.map_singleton, digitsValue_append, ih hl,
      digit_toNat hd, Nat.ofDigits_cons]
    omega

/-- A decimal numeral is a non-empty run of digits with the right value. -/
theorem decimal_spec (n : Nat) :
    decimal n ≠ [] ∧ (∀ d ∈ decimal n, IsDigit d) ∧ digitsValue (decimal n) = n := by
  unfold decimal
  split_ifs with h
  · subst h
    exact ⟨by simp, by decide, by decide⟩
  · have hlt : ∀ d ∈ Nat.digits 10 n, d < 10 := fun d hd => Nat.digits_lt_base (by omega) hd
    refine ⟨by simpa [Nat.digits_eq_nil_iff_eq_zero] using h, ?_, ?_⟩
    · intro c hc
      obtain ⟨d, hd, rfl⟩ := List.mem_map.mp hc
      exact isDigit_digit (hlt d (List.mem_reverse.mp hd))
    · rw [digitsValue_map_digit _ hlt, Nat.ofDigits_digits]

theorem decimal_injective : Function.Injective decimal := fun n n' h => by
  rw [← (decimal_spec n).2.2, ← (decimal_spec n').2.2, h]

theorem takeWhile_digits {ds : Bytes} (h : ∀ d ∈ ds, IsDigit d) :
    ds.takeWhile (IsDigit ·) = ds := by
  rw [List.takeWhile_eq_self_iff]
  exact fun d hd => decide_eq_true (h d hd)

theorem stoi_range {s : Bytes} {v : Int} (h : stoi s = .ok v) : -2 ^ 31 ≤ v ∧ v < 2 ^ 31 := by
  unfold stoi at h
  dsimp only at h
  split_ifs at h with hempty hsign hrange hrange
  all_goals
    cases h
    omega

/-- A numeral does not start with a blank. -/
theorem dropWhile_numeral {text : Bytes} {n : Int} (h : numeral text = some n) :
    text.dropWhile (IsSpace ·) = text := by
  cases text with
  | nil => rfl
  | cons c s =>
    refine List.dropWhile_cons_of_neg fun hspace => ?_
    have hspace : IsSpace c := of_decide_eq_true hspace
    have hminus : c ≠ '-' := by rintro rfl; revert hspace; decide
    have hplus : c ≠ '+' := by rintro rfl; revert hspace; decide
    have hdigits : ¬ ∀ d ∈ c :: s, IsDigit d := fun hall =>
      not_isSpace_of_isDigit (hall c List.mem_cons_self) hspace
    rw [numeral, splitSign, if_neg hminus, if_neg hplus] at h
    dsimp only at h
    rw [if_neg fun hds => hdigits hds.2] at h
    cases h

/-- `stoi` reads the numeral of an `int` whole. -/
theorem stoi_numeral {text : Bytes} {n : Int} (h : numeral text = some n)
    (hlo : -2 ^ 31 ≤ n) (hhi : n < 2 ^ 31) : stoi text = .ok n := by
  unfold stoi
  rw [dropWhile_numeral h]
  unfold numeral at h
  dsimp only at h ⊢
  by_cases hds : (splitSign text).2 ≠ [] ∧ ∀ d ∈ (splitSign text).2, IsDigit d
  · rw [if_pos hds] at h
    rw [takeWhile_digits hds.2, if_neg hds.1, Option.some.inj h, if_neg (by omega)]
  · rw [if_neg hds] at h
    cases h

theorem numeral_digits {ds : Bytes} (hne : ds ≠ []) (hds : ∀ d ∈ ds, IsDigit d) :
    numeral ds = some (digitsValue ds) := by
  obtain ⟨c, s, rfl⟩ := List.exists_cons_of_ne_nil hne
  rw [numeral, splitSign_of_isDigit (hds c List.mem_cons_self)]
  exact if_pos ⟨hne, hds⟩

theorem numeral_minus_digits {ds : Bytes} (hne : ds ≠ []) (hds : ∀ d ∈ ds, IsDigit d) :
    numeral (lit "-" ++ ds) = some (-(digitsValue ds : Int)) :=
  if_pos ⟨hne, hds⟩

/-- `stoi` reads a run of digits whole. -/
theorem stoi_digits {ds : Bytes} (hne : ds ≠ []) (hds : ∀ d ∈ ds, IsDigit d)
    (hlt : digitsValue ds < 2 ^ 31) : stoi ds = .ok (digitsValue ds) :=
  stoi_numeral (numeral_digits hne hds) (by omega) (by omega)

/-- With a minus it is read as negative. -/
theorem stoi_minus_digits {ds : Bytes} (hne : ds ≠ []) (hds : ∀ d ∈ ds, IsDigit d)
    (hle : digitsValue ds ≤ 2 ^ 31) : stoi (lit "-" ++ ds) = .ok (-(digitsValue ds : Int)) :=
  stoi_numeral (numeral_minus_digits hne hds) (by omega) (by omega)

/-- The decimal text of an `int`: digits, behind a minus if it is negative. -/
inductive DecimalText : Bytes → Int → Prop
  | digits {ds : Bytes} : ds ≠ [] → (∀ d ∈ ds, IsDigit d) → digitsValue ds < 2 ^ 31 →
      DecimalText ds (digitsValue ds)
  | minus {ds : Bytes} : ds ≠ [] → (∀ d ∈ ds, IsDigit d) → digitsValue ds ≤ 2 ^ 31 →
      DecimalText (lit "-" ++ ds) (-(digitsValue ds : Int))

theorem DecimalText.stoi {text : Bytes} {n : Int} (h : DecimalText text n) :
    stoi text = .ok n := by
  cases h with
  | digits hne hds hlt => exact stoi_digits hne hds hlt
  | minus hne hds hle => exact stoi_minus_digits hne hds hle

/-- **`stoi (to_string n) = n`** for every non-negative `int`. -/
theorem stoi_decimal {n : Nat} (h : n < 2 ^ 31) : stoi (decimal n) = .ok (n : Int) := by
  obtain ⟨hne, hds, hvalue⟩ := decimal_spec n
  rw [stoi_digits hne hds (by rwa [hvalue]), hvalue]

example : stoi " -42x" = .ok (-42) := by decide

example : decimal 2147483647 = "2147483647" := by decide

end Lib
