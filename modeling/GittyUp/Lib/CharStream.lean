import GittyUp.Lib.Bytes

/-!
# A stream read character by character

`get` and `unget` of a `std::istream`. Reading past the end sets `eofbit`, and
from then on nothing can be read; `unget` moves back over the last character
that was extracted.
-/

namespace Lib

/-- A `std::istream`: the characters extracted so far, last one first, those still to
extract, and the bits `eofbit` and `failbit`. -/
structure CharStream where
  extracted : Bytes
  unread : Bytes
  eof : Bool
  fail : Bool

namespace CharStream

/-- A stream at its beginning. -/
def ofBytes (input : Bytes) : CharStream := ⟨[], input, false, false⟩

/-- `good()`. -/
def good (s : CharStream) : Bool := !s.eof && !s.fail

/-- `get()`; `none` is the end of the file. -/
def get (s : CharStream) : Option Byte × CharStream :=
  if s.good then
    match s.unread with
    | [] => (none, { s with eof := true, fail := true })
    | c :: unread => (some c, { s with extracted := c :: s.extracted, unread := unread })
  else (none, { s with fail := true })

/-- `unget()`: it clears `eofbit` first, and fails where nothing has been extracted. -/
def unget (s : CharStream) : CharStream :=
  if s.fail then { s with eof := false }
  else
    match s.extracted with
    | [] => { s with eof := false, fail := true }
    | c :: extracted => ⟨extracted, c :: s.unread, false, false⟩

/-- All characters of the stream. -/
def content (s : CharStream) : Bytes := s.extracted.reverse ++ s.unread

variable {s : CharStream}

theorem good_iff : s.good = true ↔ s.eof = false ∧ s.fail = false := by
  simp [good]

theorem get_nil (h : s.good = true) (hunread : s.unread = []) :
    s.get = (none, { s with eof := true, fail := true }) := by
  rw [get, if_pos h, hunread]

theorem get_cons (h : s.good = true) {c : Byte} {rest : Bytes} (hunread : s.unread = c :: rest) :
    s.get = (some c, { s with extracted := c :: s.extracted, unread := rest }) := by
  rw [get, if_pos h, hunread]

/-- A character that is read is one less to read. -/
theorem get_some {c : Byte} {s' : CharStream} (h : s.get = (some c, s')) :
    s.good = true ∧ s.unread = c :: s'.unread ∧ s'.good = true ∧ s'.content = s.content := by
  unfold get at h
  by_cases hgood : s.good = true
  · rw [if_pos hgood] at h
    cases hunread : s.unread with
    | nil =>
      rw [hunread] at h
      cases h
    | cons d rest =>
      rw [hunread] at h
      cases h
      exact ⟨hgood, rfl, hgood, by simp [content, hunread]⟩
  · rw [if_neg hgood] at h
    cases h

/-- `unget` undoes the last `get`. -/
theorem unget_get {c : Byte} {s' : CharStream} (h : s.get = (some c, s')) : s'.unget = s := by
  obtain ⟨hgood, hunread, -⟩ := get_some h
  generalize s'.unread = rest at hunread
  rw [get_cons hgood hunread] at h
  cases h
  obtain ⟨extracted, unread, eof, fail⟩ := s
  obtain ⟨rfl, rfl⟩ : eof = false ∧ fail = false := good_iff.mp hgood
  rw [show unread = c :: rest from hunread]
  rfl

end CharStream

end Lib
