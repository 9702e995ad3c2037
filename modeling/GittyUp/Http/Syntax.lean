import GittyUp.Http.Request

/-!
# Which byte strings `is_valid` accepts

`HttpRequest` is the syntax of a request. `is_valid` looks at the first line
only, and there it lets the target contain spaces: `valid_iff_requestLine`. So
it is right exactly on the byte strings that have no request line, or whose
request line has a proper target and is followed by a header block.
-/

namespace GittyUp

open Lib Regex

/-- Carriage return. -/
abbrev cr : Byte := 13

/-- Line feed. -/
abbrev lf : Byte := 10

/-- No line break in `s`. -/
def OneLine (s : Bytes) : Prop := ∀ c ∈ s, c ≠ lf ∧ c ≠ cr

instance : DecidablePred OneLine := fun s => inferInstanceAs (Decidable (∀ c ∈ s, c ≠ lf ∧ c ≠ cr))

theorem oneLine_append {s t : Bytes} : OneLine (s ++ t) ↔ OneLine s ∧ OneLine t :=
  List.forall_mem_append

theorem OneLine.append {s t : Bytes} (hs : OneLine s) (ht : OneLine t) : OneLine (s ++ t) :=
  oneLine_append.mpr ⟨hs, ht⟩

theorem OneLine.lf_not_mem {s : Bytes} (h : OneLine s) : lf ∉ s := fun hmem => (h lf hmem).1 rfl

theorem OneLine.cr_not_mem {s : Bytes} (h : OneLine s) : cr ∉ s := fun hmem => (h cr hmem).2 rfl

/-- `s` is `method SP target SP HTTP/d.d CRLF` and then `rest`. The target is
any non-empty part of the line here. -/
def RequestLine (s method target rest : Bytes) : Prop :=
  (method ≠ [] ∧ ∀ c ∈ method, IsWordChar c) ∧ (target ≠ [] ∧ OneLine target) ∧
    ∃ major minor, IsDigit major ∧ IsDigit minor ∧
      s = method ++ lit " " ++ target ++ lit " HTTP/" ++ [major] ++ lit "." ++ [minor] ++
        [cr, lf] ++ rest

/-- A header `name: value`. -/
def IsHeader (h : Bytes × Bytes) : Prop :=
  h.1 ≠ [] ∧ OneLine h.1 ∧ ((':' : Byte) ∉ h.1) ∧ OneLine h.2

instance : DecidablePred IsHeader := fun _ => inferInstanceAs (Decidable (_ ∧ _ ∧ _ ∧ _))

/-- The line of a header. -/
def headerLine (h : Bytes × Bytes) : Bytes := h.1 ++ lit ": " ++ h.2 ++ [cr, lf]

/-- Header lines, a blank line, and a body. -/
def HeaderBlock (s : Bytes) : Prop :=
  ∃ (headers : List (Bytes × Bytes)) (body : Bytes), (∀ h ∈ headers, IsHeader h) ∧
    s = headers.flatMap headerLine ++ [cr, lf] ++ body

/-- The syntax of an HTTP request. -/
def HttpRequest (s : Bytes) : Prop :=
  ∃ method target rest, RequestLine s method target rest ∧ ((' ' : Byte) ∉ target) ∧
    HeaderBlock rest

/-! ## The request line -/

theorem accepts_word {pre w post : Bytes} :
    (plus true word).Accepts pre w post ↔ w ≠ [] ∧ ∀ c ∈ w, IsWordChar c := by
  rw [word, accepts_plus_char]
  simp only [decide_eq_true_eq]

theorem accepts_dot {greedy : Bool} {pre w post : Bytes} :
    (plus greedy dot).Accepts pre w post ↔ w ≠ [] ∧ OneLine w := by
  rw [dot, accepts_plus_char]
  simp only [decide_eq_true_eq]
  rfl

/-- What dots match has no line break. -/
theorem within_dot {greedy : Bool} : (plus greedy dot).Within fun c => c ≠ lf ∧ c ≠ cr :=
  within_plus_char

theorem accepts_digit {pre w post : Bytes} :
    Regex.digit.Accepts pre w post ↔ ∃ d, IsDigit d ∧ w = [d] := by
  rw [Regex.digit, accepts_char]
  simp only [decide_eq_true_eq, and_comm]

/-- The words of the request line's regex: the request lines at the beginning of
the text. -/
theorem accepts_statusLineRegex {pre w post : Bytes} :
    statusLineRegex.Accepts pre w post ↔
      pre = [] ∧ ∃ method target, RequestLine (w ++ post) method target post := by
  constructor
  · rintro ⟨_, _, rfl, ⟨rfl, rfl⟩, method, _, rfl, hmethod, _, _, rfl, hsp, target, _, rfl, htarget,
      _, _, rfl, hhttp, _, _, rfl, ⟨_, _, rfl, hd₁, _, _, rfl, hdot, _, _, rfl, hd₂, rfl⟩,
      _, _, rfl, hcrlf, rfl⟩
    obtain ⟨major, hmajor, rfl⟩ := accepts_digit.mp hd₁
    obtain ⟨minor, hminor, rfl⟩ := accepts_digit.mp hd₂
    obtain rfl := accepts_literal.mp hsp
    obtain rfl := accepts_literal.mp hhttp
    obtain rfl := accepts_literal.mp hdot
    obtain rfl := accepts_literal.mp hcrlf
    refine ⟨rfl, method, target, accepts_word.mp hmethod, accepts_dot.mp htarget, major, minor,
      hmajor, hminor, ?_⟩
    simp [lit]
  · rintro ⟨rfl, method, target, hmethod, htarget, major, minor, hmajor, hminor, hw⟩
    obtain rfl := List.append_cancel_right hw
    refine ⟨[], _, rfl, ⟨rfl, rfl⟩, method, lit " " ++ (target ++ (lit " HTTP/" ++
      (([major] ++ (lit "." ++ ([minor] ++ []))) ++ ([cr, lf] ++ [])))), ?_,
      accepts_word.mpr hmethod, _, _, rfl, accepts_literal.mpr rfl, _, _, rfl,
      accepts_dot.mpr htarget, _, _, rfl, accepts_literal.mpr rfl, _, _, rfl,
      ⟨_, _, rfl, accepts_digit.mpr ⟨major, hmajor, rfl⟩, _, _, rfl, accepts_literal.mpr rfl,
        _, _, rfl, accepts_digit.mpr ⟨minor, hminor, rfl⟩, rfl⟩,
      _, _, rfl, accepts_literal.mpr rfl, rfl⟩
    simp

/-- **`is_valid` looks for a request line**, and at nothing after it. -/
theorem valid_iff_requestLine (stale s : Bytes) :
    (Request.mk' stale s).valid = true ↔
      ∃ method target rest, RequestLine s method target rest := by
  rw [Request.valid_mk', search_isSome_iff]
  constructor
  · rintro ⟨u, w, v, rfl, hacc⟩
    obtain ⟨rfl, method, target, hline⟩ := accepts_statusLineRegex.mp hacc
    exact ⟨method, target, v, hline⟩
  · rintro ⟨method, target, rest, hline⟩
    obtain ⟨hmethod, htarget, major, minor, hmajor, hminor, rfl⟩ := hline
    exact ⟨[], _, rest, rfl, accepts_statusLineRegex.mpr
      ⟨rfl, method, target, hmethod, htarget, major, minor, hmajor, hminor, rfl⟩⟩

/-! ## The request line is unique -/

theorem not_mem_of_isWordChar {w : Bytes} (hw : ∀ c ∈ w, IsWordChar c) :
    ((' ' : Byte) ∉ w) ∧ cr ∉ w :=
  ⟨fun h => absurd (hw _ h) (by decide), fun h => absurd (hw _ h) (by decide)⟩

/-- A request line for `HTTP/1.1`. -/
theorem RequestLine.of_eq {s method target rest : Bytes}
    (h : (method ≠ [] ∧ ∀ c ∈ method, IsWordChar c) ∧ (target ≠ [] ∧ OneLine target) ∧
      s = method ++ lit " " ++ target ++ lit " HTTP/1.1\r\n" ++ rest) :
    RequestLine s method target rest := by
  obtain ⟨hmethod, htarget, rfl⟩ := h
  refine ⟨hmethod, htarget, '1', '1', by decide, by decide, ?_⟩
  simp [lit]

theorem not_isDigit_cr {d : Byte} (hd : IsDigit d) : cr ≠ d := by
  rintro rfl
  exact absurd hd (by decide)

/-- A byte string has one request line at most. -/
theorem RequestLine.unique {s method target rest method' target' rest' : Bytes}
    (h : RequestLine s method target rest) (h' : RequestLine s method' target' rest') :
    method = method' ∧ target = target' ∧ rest = rest' := by
  obtain ⟨hm, ht, major, minor, hmajor, hminor, rfl⟩ := h
  obtain ⟨hm', ht', major', minor', hmajor', hminor', heq⟩ := h'
  -- the line ends at the first carriage return
  have line : ∀ {method target : Bytes} {major minor : Byte}, (∀ c ∈ method, IsWordChar c) →
      OneLine target → IsDigit major → IsDigit minor →
      cr ∉ method ++ lit " " ++ target ++ (lit " HTTP/" ++ [major] ++ lit "." ++ [minor]) := by
    intro method target major minor hm ht hmajor hminor
    have hcr : cr ∉ lit " " ∧ cr ∉ lit " HTTP/" ∧ cr ∉ lit "." := by decide
    have htarget : cr ∉ target := fun h => (ht _ h).2 rfl
    simp only [List.mem_append, List.mem_singleton, (not_mem_of_isWordChar hm).2, hcr, htarget,
      not_isDigit_cr hmajor, not_isDigit_cr hminor, or_self, not_false_eq_true]
  have hcut : (method ++ lit " " ++ target ++ (lit " HTTP/" ++ [major] ++ lit "." ++ [minor])) ++
        cr :: (lf :: rest) =
      (method' ++ lit " " ++ target' ++ (lit " HTTP/" ++ [major'] ++ lit "." ++ [minor'])) ++
        cr :: (lf :: rest') := by
    simpa using heq
  obtain ⟨hline, hrest⟩ := append_cons_cancel (line hm.2 ht.2 hmajor hminor)
    (line hm'.2 ht'.2 hmajor' hminor') hcut
  -- the version has a fixed length, and the method ends at the first space
  have hhead := (List.append_inj' hline (by simp [lit])).1
  have hsp : method ++ (' ' : Byte) :: target = method' ++ (' ' : Byte) :: target' := by
    simpa [lit] using hhead
  obtain ⟨hmethod, htarget⟩ := append_cons_cancel (not_mem_of_isWordChar hm.2).1
    (not_mem_of_isWordChar hm'.2).1 hsp
  exact ⟨hmethod, htarget, (List.cons.inj hrest).2⟩

/-! ## `is_valid` and the syntax of a request -/

/-- **Exactly when `is_valid` is right**: unless the bytes begin with a request
line whose target contains a space, or which no header block follows. -/
theorem valid_iff_httpRequest_iff (stale s : Bytes) :
    ((Request.mk' stale s).valid = true ↔ HttpRequest s) ↔
      ∀ method target rest, RequestLine s method target rest →
        ((' ' : Byte) ∉ target) ∧ HeaderBlock rest := by
  rw [valid_iff_requestLine]
  constructor
  · intro h method target rest hline
    obtain ⟨method', target', rest', hline', hsp, hblock⟩ := h.mp ⟨method, target, rest, hline⟩
    obtain ⟨rfl, rfl, rfl⟩ := hline.unique hline'
    exact ⟨hsp, hblock⟩
  · intro h
    constructor
    · rintro ⟨method, target, rest, hline⟩
      exact ⟨method, target, rest, hline, h method target rest hline⟩
    · rintro ⟨method, target, rest, hline, -⟩
      exact ⟨method, target, rest, hline⟩

theorem HeaderBlock.cr_mem {s : Bytes} (h : HeaderBlock s) : cr ∈ s := by
  obtain ⟨headers, body, -, rfl⟩ := h
  simp

/-- `"GET / HTTP/1.1\r\ngarbage"` is accepted, though no header block follows
the request line. -/
theorem valid_garbage :
    ¬ ((Request.mk' [] "GET / HTTP/1.1\r\ngarbage").valid = true ↔
      HttpRequest "GET / HTTP/1.1\r\ngarbage") := by
  have hline : RequestLine "GET / HTTP/1.1\r\ngarbage" "GET" "/" "garbage" :=
    RequestLine.of_eq (by decide)
  intro h
  obtain ⟨method, target, rest, hline', -, hblock⟩ :=
    h.mp ((valid_iff_requestLine _ _).mpr ⟨_, _, _, hline⟩)
  obtain ⟨-, -, rfl⟩ := hline.unique hline'
  exact absurd hblock.cr_mem (by decide)

end GittyUp
