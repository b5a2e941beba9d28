import Newsintel.Basic

/-!
# UTF-8

`str.encode("utf-8")` and `bytes.decode("utf-8", errors="replace")`. The decoder
keeps the bytes still owed and the bounds of the next one; a byte out of bounds
ends the sequence with U+FFFD and is read again as a first byte. Decoding undoes
encoding.
-/

namespace Newsintel.Utf8

/-- The bytes of one scalar value. -/
def encodeChar (c : Char) : List ℕ :=
  let n := c.toNat
  if n < 0x80 then [n]
  else if n < 0x800 then [0xC0 + n / 0x40, 0x80 + n % 0x40]
  else if n < 0x10000 then [0xE0 + n / 0x1000, 0x80 + n / 0x40 % 0x40, 0x80 + n % 0x40]
  else [0xF0 + n / 0x40000, 0x80 + n / 0x1000 % 0x40, 0x80 + n / 0x40 % 0x40, 0x80 + n % 0x40]

/-- `t.encode("utf-8")`. -/
def encode (t : Text) : List ℕ := t.flatMap encodeChar

/-- A sequence that has begun: continuation bytes owed, the bits read so far, and
the bounds of the next byte. -/
structure Pending where
  owed : ℕ
  value : ℕ
  low : ℕ
  high : ℕ
  deriving DecidableEq, Repr

/-- What a byte means at the start of a sequence. -/
inductive Lead where
  | char (c : Char)
  | pending (p : Pending)
  | invalid
  deriving DecidableEq, Repr

def lead (b : ℕ) : Lead :=
  if b < 0x80 then .char (Char.ofNat b)
  else if b < 0xC2 then .invalid
  else if b < 0xE0 then .pending ⟨1, b - 0xC0, 0x80, 0xBF⟩
  else if b < 0xF0 then
    .pending ⟨2, b - 0xE0, if b = 0xE0 then 0xA0 else 0x80, if b = 0xED then 0x9F else 0xBF⟩
  else if b < 0xF5 then
    .pending ⟨3, b - 0xF0, if b = 0xF0 then 0x90 else 0x80, if b = 0xF4 then 0x8F else 0xBF⟩
  else .invalid

/-- `U+FFFD`, the replacement character. -/
def replacement : Char := Char.ofNat 0xFFFD

def decodeFrom : Option Pending → List ℕ → Text
  | none, [] => []
  | some _, [] => [replacement]
  | some p, b :: bs =>
    if p.low ≤ b ∧ b ≤ p.high then
      if p.owed = 1 then Char.ofNat (p.value * 0x40 + (b - 0x80)) :: decodeFrom none bs
      else decodeFrom (some ⟨p.owed - 1, p.value * 0x40 + (b - 0x80), 0x80, 0xBF⟩) bs
    else
      replacement :: match lead b with
        | .char c => c :: decodeFrom none bs
        | .pending q => decodeFrom (some q) bs
        | .invalid => replacement :: decodeFrom none bs
  | none, b :: bs =>
    match lead b with
    | .char c => c :: decodeFrom none bs
    | .pending q => decodeFrom (some q) bs
    | .invalid => replacement :: decodeFrom none bs

/-- `bs.decode("utf-8", errors="replace")`. -/
def decode (bs : List ℕ) : Text := decodeFrom none bs

/-! ### Round trip -/

/- A scalar value is below 0x110000 and no surrogate. -/
theorem scalar (c : Char) : c.toNat < 0xD800 ∨ 0xDFFF < c.toNat ∧ c.toNat < 0x110000 := c.valid

theorem decodeFrom_pending {b : ℕ} {q : Pending} (h : lead b = .pending q) (bs : List ℕ) :
    decodeFrom none (b :: bs) = decodeFrom (some q) bs := by
  simp [decodeFrom, h]

/- A continuation byte within its bounds. -/
theorem decodeFrom_last {value low high k : ℕ} (hl : low ≤ 0x80 + k) (hh : 0x80 + k ≤ high)
    (bs : List ℕ) :
    decodeFrom (some ⟨1, value, low, high⟩) ((0x80 + k) :: bs) =
      Char.ofNat (value * 0x40 + k) :: decodeFrom none bs := by
  simp [decodeFrom, hl, hh]

theorem decodeFrom_more {owed value low high k : ℕ} (hl : low ≤ 0x80 + k) (hh : 0x80 + k ≤ high)
    (bs : List ℕ) :
    decodeFrom (some ⟨owed + 2, value, low, high⟩) ((0x80 + k) :: bs) =
      decodeFrom (some ⟨owed + 1, value * 0x40 + k, 0x80, 0xBF⟩) bs := by
  simp [decodeFrom, hl, hh]

theorem lead_two {n : ℕ} (h : 0x80 ≤ n) (h' : n < 0x800) :
    lead (0xC0 + n / 0x40) = .pending ⟨1, n / 0x40, 0x80, 0xBF⟩ := by
  have e : 0xC0 + n / 0x40 - 0xC0 = n / 0x40 := by omega
  rw [lead, if_neg (by omega), if_neg (by omega), if_pos (by omega), e]

theorem lead_three {n : ℕ} (h : 0x800 ≤ n) (h' : n < 0x10000) (hs : n < 0xD800 ∨ 0xDFFF < n) :
    ∃ low high, lead (0xE0 + n / 0x1000) = .pending ⟨2, n / 0x1000, low, high⟩ ∧
      low ≤ 0x80 + n / 0x40 % 0x40 ∧ 0x80 + n / 0x40 % 0x40 ≤ high := by
  have e : 0xE0 + n / 0x1000 - 0xE0 = n / 0x1000 := by omega
  rw [lead, if_neg (by omega), if_neg (by omega), if_neg (by omega), if_pos (by omega), e]
  refine ⟨_, _, rfl, ?_, ?_⟩
  · split <;> omega
  · split <;> omega

theorem lead_four {n : ℕ} (h : 0x10000 ≤ n) (h' : n < 0x110000) :
    ∃ low high, lead (0xF0 + n / 0x40000) = .pending ⟨3, n / 0x40000, low, high⟩ ∧
      low ≤ 0x80 + n / 0x1000 % 0x40 ∧ 0x80 + n / 0x1000 % 0x40 ≤ high := by
  have e : 0xF0 + n / 0x40000 - 0xF0 = n / 0x40000 := by omega
  rw [lead, if_neg (by omega), if_neg (by omega), if_neg (by omega), if_neg (by omega),
    if_pos (by omega), e]
  refine ⟨_, _, rfl, ?_, ?_⟩
  · split <;> omega
  · split <;> omega

theorem decodeFrom_encodeChar (c : Char) (bs : List ℕ) :
    decodeFrom none (encodeChar c ++ bs) = c :: decodeFrom none bs := by
  have hc := scalar c
  generalize hn : c.toNat = n at hc
  have hofNat : Char.ofNat n = c := by rw [← hn, Char.ofNat_toNat]
  unfold encodeChar
  simp only [hn]
  by_cases h1 : n < 0x80
  · simp [h1, decodeFrom, lead, hofNat]
  by_cases h2 : n < 0x800
  · rw [if_neg h1, if_pos h2]
    have hv : n / 0x40 * 0x40 + n % 0x40 = n := by omega
    simp only [List.cons_append, List.nil_append]
    rw [decodeFrom_pending (lead_two (by omega) h2), decodeFrom_last (by omega) (by omega), hv,
      hofNat]
  by_cases h3 : n < 0x10000
  · rw [if_neg h1, if_neg h2, if_pos h3]
    obtain ⟨low, high, hlead, hlow, hhigh⟩ := lead_three (by omega) h3 (by omega)
    have hv : (n / 0x1000 * 0x40 + n / 0x40 % 0x40) * 0x40 + n % 0x40 = n := by omega
    simp only [List.cons_append, List.nil_append]
    rw [decodeFrom_pending hlead, decodeFrom_more hlow hhigh,
      decodeFrom_last (by omega) (by omega), hv, hofNat]
  · rw [if_neg h1, if_neg h2, if_neg h3]
    obtain ⟨low, high, hlead, hlow, hhigh⟩ := lead_four (n := n) (by omega) (by omega)
    have hv : ((n / 0x40000 * 0x40 + n / 0x1000 % 0x40) * 0x40 + n / 0x40 % 0x40) * 0x40 +
        n % 0x40 = n := by omega
    simp only [List.cons_append, List.nil_append]
    rw [decodeFrom_pending hlead, decodeFrom_more hlow hhigh,
      decodeFrom_more (by omega) (by omega), decodeFrom_last (by omega) (by omega), hv, hofNat]

theorem decode_encode (t : Text) : decode (encode t) = t := by
  simp only [decode]
  induction t with
  | nil => rfl
  | cons c t ih =>
    rw [encode, List.flatMap_cons, decodeFrom_encodeChar]
    exact congrArg (c :: ·) ih

theorem encode_injective : Function.Injective encode := Function.LeftInverse.injective decode_encode

end Newsintel.Utf8
