import Newsintel.Lib.PyQuote

/-!
# Pages of an unknown encoding

`bytes.decode` in strict mode for UTF-8 and Windows-1252. What is encoded in UTF-8 is read in
UTF-8.
-/

namespace Newsintel.Utf8

/-- As `decodeFrom`, `none` where the replacement character would stand. -/
def strictFrom : Option Pending → List ℕ → Option Text
  | none, [] => some []
  | some _, [] => none
  | some p, b :: bs =>
    if p.low ≤ b ∧ b ≤ p.high then
      if p.owed = 1 then
        (strictFrom none bs).map (Char.ofNat (p.value * 0x40 + (b - 0x80)) :: ·)
      else strictFrom (some ⟨p.owed - 1, p.value * 0x40 + (b - 0x80), 0x80, 0xBF⟩) bs
    else none
  | none, b :: bs =>
    match lead b with
    | .char c => (strictFrom none bs).map (c :: ·)
    | .pending q => strictFrom (some q) bs
    | .invalid => none

/-- `bs.decode("utf-8")`, `none` for `UnicodeDecodeError`. -/
def decodeStrict (bs : List ℕ) : Option Text := strictFrom none bs

theorem strictFrom_pending {b : ℕ} {q : Pending} (h : lead b = .pending q) (bs : List ℕ) :
    strictFrom none (b :: bs) = strictFrom (some q) bs := by
  simp only [strictFrom, h]

theorem strictFrom_last {value low high k : ℕ} (hl : low ≤ 0x80 + k) (hh : 0x80 + k ≤ high)
    (bs : List ℕ) :
    strictFrom (some ⟨1, value, low, high⟩) ((0x80 + k) :: bs) =
      (strictFrom none bs).map (Char.ofNat (value * 0x40 + k) :: ·) := by
  rw [strictFrom, if_pos ⟨hl, hh⟩, if_pos rfl, Nat.add_sub_cancel_left]

theorem strictFrom_more {owed value low high k : ℕ} (hl : low ≤ 0x80 + k) (hh : 0x80 + k ≤ high)
    (bs : List ℕ) :
    strictFrom (some ⟨owed + 2, value, low, high⟩) ((0x80 + k) :: bs) =
      strictFrom (some ⟨owed + 1, value * 0x40 + k, 0x80, 0xBF⟩) bs := by
  rw [strictFrom, if_pos ⟨hl, hh⟩, if_neg (by simp), Nat.add_sub_cancel_left]
  rfl

theorem strictFrom_encodeChar (c : Char) (bs : List ℕ) :
    strictFrom none (encodeChar c ++ bs) = (strictFrom none bs).map (c :: ·) := by
  have hc := scalar c
  generalize hn : c.toNat = n at hc
  have hofNat : Char.ofNat n = c := by rw [← hn, Char.ofNat_toNat]
  unfold encodeChar
  simp only [hn]
  by_cases h1 : n < 0x80
  · simp [h1, strictFrom, lead, hofNat]
  by_cases h2 : n < 0x800
  · rw [if_neg h1, if_pos h2]
    have hv : n / 0x40 * 0x40 + n % 0x40 = n := by omega
    simp only [List.cons_append, List.nil_append]
    rw [strictFrom_pending (lead_two (by omega) h2), strictFrom_last (by omega) (by omega), hv,
      hofNat]
  by_cases h3 : n < 0x10000
  · rw [if_neg h1, if_neg h2, if_pos h3]
    obtain ⟨low, high, hlead, hlow, hhigh⟩ := lead_three (by omega) h3 (by omega)
    have hv : (n / 0x1000 * 0x40 + n / 0x40 % 0x40) * 0x40 + n % 0x40 = n := by omega
    simp only [List.cons_append, List.nil_append]
    rw [strictFrom_pending hlead, strictFrom_more hlow hhigh,
      strictFrom_last (by omega) (by omega), hv, hofNat]
  · rw [if_neg h1, if_neg h2, if_neg h3]
    obtain ⟨low, high, hlead, hlow, hhigh⟩ := lead_four (n := n) (by omega) (by omega)
    have hv : ((n / 0x40000 * 0x40 + n / 0x1000 % 0x40) * 0x40 + n / 0x40 % 0x40) * 0x40 +
        n % 0x40 = n := by omega
    simp only [List.cons_append, List.nil_append]
    rw [strictFrom_pending hlead, strictFrom_more hlow hhigh,
      strictFrom_more (by omega) (by omega), strictFrom_last (by omega) (by omega), hv, hofNat]

theorem decodeStrict_encode (t : Text) : decodeStrict (encode t) = some t := by
  unfold decodeStrict
  induction t with
  | nil => rfl
  | cons c t ih =>
    rw [encode, List.flatMap_cons, strictFrom_encodeChar]
    exact congrArg (Option.map (c :: ·)) ih

/-- `t.encode("utf-8")`, as bytes. -/
def encodeBytes (t : Text) : Bytes := (encode t).map UInt8.ofNat

theorem encodeBytes_toNat (t : Text) : (encodeBytes t).map UInt8.toNat = encode t := by
  rw [encodeBytes, List.map_map]
  refine (List.map_congr_left fun b hb => ?_).trans (List.map_id _)
  obtain ⟨c, _, hc⟩ := List.mem_flatMap.mp hb
  exact UInt8.toNat_ofNat_of_lt' (PyQuote.encodeChar_lt hc)

end Newsintel.Utf8

namespace Newsintel.Windows1252

/-- The characters of 0x80 to 0x9F; five of the bytes have none. -/
def specials : List (Option ℕ) :=
  [some 0x20AC, none, some 0x201A, some 0x192, some 0x201E, some 0x2026, some 0x2020, some 0x2021,
    some 0x2C6, some 0x2030, some 0x160, some 0x2039, some 0x152, none, some 0x17D, none, none,
    some 0x2018, some 0x2019, some 0x201C, some 0x201D, some 0x2022, some 0x2013, some 0x2014,
    some 0x2DC, some 0x2122, some 0x161, some 0x203A, some 0x153, none, some 0x17E, some 0x178]

def decodeByte (b : ℕ) : Option Char :=
  if b < 0x80 ∨ 0xA0 ≤ b then some (Char.ofNat b)
  else (specials[b - 0x80]?.join).map Char.ofNat

/-- `bs.decode("windows-1252")`, `none` for `UnicodeDecodeError`. -/
def decodeStrict (bs : List ℕ) : Option Text := bs.mapM decodeByte

end Newsintel.Windows1252
