import Mathlib.Algebra.Group.Nat.Defs
import Newsintel.Lib.Utf8

/-!
# SHA-256 (FIPS 180-4)

`hashlib.sha256(bs).hexdigest()` on words kept as naturals below 2^32. The
schedule is built newest word first.
-/

namespace Newsintel.Sha256

/-- The first 32 bits of the fractional parts of the cube roots of the primes. -/
def roundConstants : List ℕ :=
  [0x428a2f98, 0x71374491, 0xb5c0fbcf, 0xe9b5dba5, 0x3956c25b, 0x59f111f1, 0x923f82a4, 0xab1c5ed5,
    0xd807aa98, 0x12835b01, 0x243185be, 0x550c7dc3, 0x72be5d74, 0x80deb1fe, 0x9bdc06a7, 0xc19bf174,
    0xe49b69c1, 0xefbe4786, 0x0fc19dc6, 0x240ca1cc, 0x2de92c6f, 0x4a7484aa, 0x5cb0a9dc, 0x76f988da,
    0x983e5152, 0xa831c66d, 0xb00327c8, 0xbf597fc7, 0xc6e00bf3, 0xd5a79147, 0x06ca6351, 0x14292967,
    0x27b70a85, 0x2e1b2138, 0x4d2c6dfc, 0x53380d13, 0x650a7354, 0x766a0abb, 0x81c2c92e, 0x92722c85,
    0xa2bfe8a1, 0xa81a664b, 0xc24b8b70, 0xc76c51a3, 0xd192e819, 0xd6990624, 0xf40e3585, 0x106aa070,
    0x19a4c116, 0x1e376c08, 0x2748774c, 0x34b0bcb5, 0x391c0cb3, 0x4ed8aa4a, 0x5b9cca4f, 0x682e6ff3,
    0x748f82ee, 0x78a5636f, 0x84c87814, 0x8cc70208, 0x90befffa, 0xa4506ceb, 0xbef9a3f7, 0xc67178f2]

structure State where
  a : ℕ
  b : ℕ
  c : ℕ
  d : ℕ
  e : ℕ
  f : ℕ
  g : ℕ
  h : ℕ
  deriving DecidableEq, Repr

def initial : State :=
  ⟨0x6a09e667, 0xbb67ae85, 0x3c6ef372, 0xa54ff53a, 0x510e527f, 0x9b05688c, 0x1f83d9ab, 0x5be0cd19⟩

def rotr (n x : ℕ) : ℕ := (x >>> n ||| x <<< (32 - n)) % 2 ^ 32

def bigSigma0 (x : ℕ) : ℕ := rotr 2 x ^^^ rotr 13 x ^^^ rotr 22 x

def bigSigma1 (x : ℕ) : ℕ := rotr 6 x ^^^ rotr 11 x ^^^ rotr 25 x

def smallSigma0 (x : ℕ) : ℕ := rotr 7 x ^^^ rotr 18 x ^^^ x >>> 3

def smallSigma1 (x : ℕ) : ℕ := rotr 17 x ^^^ rotr 19 x ^^^ x >>> 10

def choose (x y z : ℕ) : ℕ := x &&& y ^^^ (0xffffffff ^^^ x) &&& z

def majority (x y z : ℕ) : ℕ := x &&& y ^^^ x &&& z ^^^ y &&& z

/-- `n` further words of the schedule. -/
def extend : ℕ → List ℕ → List ℕ
  | 0, ws => ws
  | n + 1, ws =>
    let w := (smallSigma1 (ws.getD 1 0) + ws.getD 6 0 + smallSigma0 (ws.getD 14 0) +
      ws.getD 15 0) % 2 ^ 32
    extend n (w :: ws)

def round (s : State) (kw : ℕ × ℕ) : State :=
  let t1 := s.h + bigSigma1 s.e + choose s.e s.f s.g + kw.1 + kw.2
  let t2 := bigSigma0 s.a + majority s.a s.b s.c
  ⟨(t1 + t2) % 2 ^ 32, s.a, s.b, s.c, (s.d + t1) % 2 ^ 32, s.e, s.f, s.g⟩

/-- The value of big-endian bytes. -/
def beValue (bs : List ℕ) : ℕ := bs.foldl (fun n b => n * 256 + b) 0

/-- Big-endian words of `k` bytes each, `n` of them. -/
def wordsOf (k : ℕ) : ℕ → List ℕ → List (List ℕ)
  | 0, _ => []
  | n + 1, bs => bs.take k :: wordsOf k n (bs.drop k)

def compress (s : State) (block : List ℕ) : State :=
  let schedule := (extend 48 ((wordsOf 4 16 block).map beValue).reverse).reverse
  let r := (roundConstants.zip schedule).foldl round s
  ⟨(s.a + r.a) % 2 ^ 32, (s.b + r.b) % 2 ^ 32, (s.c + r.c) % 2 ^ 32, (s.d + r.d) % 2 ^ 32,
    (s.e + r.e) % 2 ^ 32, (s.f + r.f) % 2 ^ 32, (s.g + r.g) % 2 ^ 32, (s.h + r.h) % 2 ^ 32⟩

/-- `n` as `k` big-endian bytes. -/
def beBytes (k n : ℕ) : List ℕ := (List.range k).map fun i => n / 256 ^ (k - 1 - i) % 256

def pad (bs : List ℕ) : List ℕ :=
  bs ++ 0x80 :: List.replicate ((119 - bs.length % 64) % 64) 0 ++ beBytes 8 (8 * bs.length)

def hexDigit (n : ℕ) : Char := "0123456789abcdef".toList.getD n '0'

/-- `sha256(bs).hexdigest()`. -/
def hexdigest (bs : List ℕ) : Text :=
  let padded := pad bs
  let s := (wordsOf 64 (padded.length / 64) padded).foldl compress initial
  [s.a, s.b, s.c, s.d, s.e, s.f, s.g, s.h].flatMap fun w =>
    (beBytes 4 w).flatMap fun b => [hexDigit (b / 16), hexDigit (b % 16)]

theorem hexdigest_length (bs : List ℕ) : (hexdigest bs).length = 64 := by
  have hword : ∀ w, ((beBytes 4 w).flatMap fun b => [hexDigit (b / 16), hexDigit (b % 16)]).length
      = 8 := fun w => rfl
  simp only [hexdigest, List.flatMap_cons, List.flatMap_nil, List.length_append, hword,
    List.length_nil]

theorem mem_hexdigest {bs : List ℕ} {c : Char} (h : c ∈ hexdigest bs) :
    c ∈ "0123456789abcdef".toList := by
  have hdigit : ∀ n, hexDigit n ∈ "0123456789abcdef".toList := by
    intro n
    unfold hexDigit
    rw [List.getD_eq_getElem?_getD]
    cases hn : "0123456789abcdef".toList[n]? with
    | none => decide
    | some d => exact List.mem_of_getElem? hn
  simp only [hexdigest, List.mem_flatMap] at h
  obtain ⟨w, -, b, -, hc⟩ := h
  simp only [List.mem_cons, List.not_mem_nil, or_false] at hc
  rcases hc with rfl | rfl
  · exact hdigit _
  · exact hdigit _

/-- `sha256(t.encode("utf-8")).hexdigest()`. -/
def ofText (t : Text) : Text := hexdigest (Utf8.encode t)

end Newsintel.Sha256
