import GittyUp.Lib.Numeral

/-!
# Streams that a socket fills

A `std::istream` extracts words, numbers and lines from the bytes buffered so
far. `readUntil` is `boost::asio::read_until`: it appends what the socket
delivers, read by read, until the buffer contains a delimiter. A message is
read alike however it is split into reads: see `readUntil_some`.
-/

namespace Lib

/-- A `std::istream`: the bytes to extract, and the bits `eofbit` and `failbit`. -/
structure IStream where
  buffer : Bytes
  eof : Bool
  fail : Bool

namespace IStream

/-- A stream in good state. -/
def ofBuffer (buffer : Bytes) : IStream := ⟨buffer, false, false⟩

/-- `good()`. -/
def good (s : IStream) : Bool := !s.eof && !s.fail

/-- The sentry of a formatted extraction skips blanks; it fails at the end. -/
def skipBlanks (s : IStream) : IStream :=
  if s.good then
    let rest := s.buffer.dropWhile (IsSpace ·)
    ⟨rest, rest = [], rest = []⟩
  else { s with fail := true }

/-- `stream >> word`; `none` where the variable is not assigned. -/
def extractWord (s : IStream) : Option Bytes × IStream :=
  let s := s.skipBlanks
  if s.good then
    let rest := s.buffer.dropWhile (¬ IsSpace ·)
    (some (s.buffer.takeWhile (¬ IsSpace ·)), ⟨rest, rest = [], false⟩)
  else (none, s)

/-- `stream >> n` into an `unsigned int`. -/
def extractUnsigned (s : IStream) : Option Nat × IStream :=
  let s := s.skipBlanks
  if s.good then
    let (neg, digits) := splitSign s.buffer
    let ds := digits.takeWhile (IsDigit ·)
    let rest := digits.dropWhile (IsDigit ·)
    if ds = [] then (some 0, ⟨rest, rest = [], true⟩)
    else if 2 ^ 32 ≤ digitsValue ds then (some (2 ^ 32 - 1), ⟨rest, rest = [], true⟩)
    else (some (if neg then (2 ^ 32 - digitsValue ds) % 2 ^ 32 else digitsValue ds),
      ⟨rest, rest = [], false⟩)
  else (none, s)

/-- `getline(stream, line)`. -/
def getline (s : IStream) : Option Bytes × IStream :=
  if s.good then
    match s.buffer.dropWhile (· ≠ 10) with
    | [] => (some s.buffer, ⟨[], true, s.buffer = []⟩)
    | _ :: rest => (some (s.buffer.takeWhile (· ≠ 10)), { s with buffer := rest })
  else (none, { s with fail := true })

/-! ## Extraction from a good stream -/

/-- A run of `p` is cut off in front of the first byte that does not satisfy it. -/
theorem cut_run {p : Byte → Bool} {u v : Bytes} {c : Byte} (hu : ∀ d ∈ u, p d) (hc : ¬ p c) :
    (u ++ c :: v).takeWhile p = u ∧ (u ++ c :: v).dropWhile p = c :: v := by
  constructor
  · rw [List.takeWhile_append_of_pos hu, List.takeWhile_cons_of_neg hc, List.append_nil]
  · rw [List.dropWhile_append_of_pos hu, List.dropWhile_cons_of_neg hc]

/-- A word is extracted up to the blank behind it. -/
theorem extractWord_ofBuffer {w rest : Bytes} {c : Byte} (hne : w ≠ [])
    (hw : ∀ d ∈ w, ¬ IsSpace d) (hc : IsSpace c) :
    (ofBuffer (w ++ c :: rest)).extractWord = (some w, ofBuffer (c :: rest)) := by
  obtain ⟨d, w, rfl⟩ := List.exists_cons_of_ne_nil hne
  have hskip : (ofBuffer (d :: w ++ c :: rest)).skipBlanks = ofBuffer (d :: w ++ c :: rest) := by
    have hd : ¬ IsSpace d := hw d List.mem_cons_self
    simp [skipBlanks, ofBuffer, good, hd]
  obtain ⟨htake, hdrop⟩ := cut_run (p := (¬ IsSpace ·)) (v := rest)
    (fun x hx => decide_eq_true (hw x hx)) (by simpa using hc)
  unfold extractWord
  rw [hskip]
  simp only [ofBuffer, good, htake, hdrop]
  rfl

/-- A number is extracted from behind one blank up to the first byte that is not
a digit. -/
theorem extractUnsigned_ofBuffer {ds rest : Bytes} {b c : Byte} (hb : IsSpace b) (hne : ds ≠ [])
    (hds : ∀ d ∈ ds, IsDigit d) (hlt : digitsValue ds < 2 ^ 32) (hc : ¬ IsDigit c) :
    (ofBuffer (b :: ds ++ c :: rest)).extractUnsigned =
      (some (digitsValue ds), ofBuffer (c :: rest)) := by
  obtain ⟨d, ds, rfl⟩ := List.exists_cons_of_ne_nil hne
  have hd := hds d List.mem_cons_self
  have hskip : (ofBuffer (b :: (d :: ds) ++ c :: rest)).skipBlanks =
      ofBuffer ((d :: ds) ++ c :: rest) := by
    have hd' : ¬ IsSpace d := not_isSpace_of_isDigit hd
    simp [skipBlanks, ofBuffer, good, hb, hd']
  obtain ⟨htake, hdrop⟩ := cut_run (p := (IsDigit ·)) (v := rest)
    (fun x hx => decide_eq_true (hds x hx)) (by simpa using hc)
  have hsign : splitSign ((d :: ds) ++ c :: rest) = (false, (d :: ds) ++ c :: rest) :=
    splitSign_of_isDigit hd _
  unfold extractUnsigned
  rw [hskip]
  simp only [ofBuffer, good, hsign, htake, hdrop]
  simpa using hlt

/-- A line is extracted without its line feed. -/
theorem getline_ofBuffer {line rest : Bytes} (h : (10 : Byte) ∉ line) :
    (ofBuffer (line ++ 10 :: rest)).getline = (some line, ofBuffer rest) := by
  obtain ⟨htake, hdrop⟩ := cut_run (p := (· ≠ 10)) (c := 10) (v := rest)
    (fun d hd => decide_eq_true (ne_of_mem_of_not_mem hd h)) (by simp)
  unfold getline
  simp only [ofBuffer, good, htake, hdrop]
  rfl

end IStream

/-! ## Reading up to a delimiter -/

/-- `boost::asio::read_until`: the buffer and the reads left once the buffer
contains the delimiter; `none` if the end comes first. -/
def readUntil (delimiter : Bytes) : List Bytes → Bytes → Option (Bytes × List Bytes)
  | [], buffer => if delimiter <:+: buffer then some (buffer, []) else none
  | read :: reads, buffer =>
    if delimiter <:+: buffer then some (buffer, read :: reads)
    else readUntil delimiter reads (buffer ++ read)

/-- A delimiter in the message is found, wherever the reads end; no byte is lost
or read twice. -/
theorem readUntil_some {delimiter : Bytes} (reads : List Bytes) (buffer : Bytes)
    (h : delimiter <:+: buffer ++ reads.flatten) :
    ∃ buffer' reads', readUntil delimiter reads buffer = some (buffer', reads') ∧
      delimiter <:+: buffer' ∧ buffer' ++ reads'.flatten = buffer ++ reads.flatten := by
  induction reads generalizing buffer with
  | nil =>
    rw [List.flatten_nil, List.append_nil] at h
    exact ⟨buffer, [], by rw [readUntil, if_pos h], h, rfl⟩
  | cons read reads ih =>
    rw [readUntil]
    by_cases hin : delimiter <:+: buffer
    · exact ⟨buffer, read :: reads, if_pos hin, hin, rfl⟩
    · rw [List.flatten_cons, ← List.append_assoc] at h
      obtain ⟨buffer', reads', hrun, hdelim, hall⟩ := ih (buffer ++ read) h
      refine ⟨buffer', reads', by rw [if_neg hin, hrun], hdelim, ?_⟩
      rw [hall, List.flatten_cons, List.append_assoc]

end Lib
