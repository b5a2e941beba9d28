import Mathlib.Data.Nat.Bitwise
import Newsintel.Basic
import Newsintel.Lib.BitFields

/-!
# Identifiers (core/ids.py)

`uuid7` puts the time in milliseconds above a version, a variant and random bits. Ids are the
primary keys of all tables; here `Uuid` is their integer.
-/

namespace Newsintel.Core

open BitFields

/-! ### The generator -/

/-- `value` (lines 13-19). -/
def uuid7Value (unixMs randomA randomB : ℕ) : ℕ :=
  unixMs <<< 80 ||| 0x7 <<< 76 ||| randomA <<< 64 ||| 0b10 <<< 62 ||| randomB

/-- `UUID(int=value)`. -/
def uuidOfInt (value : ℕ) : Except PyError Uuid :=
  if value < 1 <<< 128 then .ok value else .error .valueError

/-- `uuid7()` at the time `timeNs`, with the bits that `secrets.randbits` returned. -/
def uuid7 (timeNs randomA randomB : ℕ) : Except PyError Uuid :=
  let unixMs := timeNs / 1000000
  if 1 <<< 48 ≤ unixMs then .error .overflowError
  else uuidOfInt (uuid7Value unixMs randomA randomB)

/-! ### Fields of a UUID -/

inductive UuidVariant where
  | reservedNcs | rfc4122 | reservedMicrosoft | reservedFuture
  deriving DecidableEq, Repr

/-- `UUID.variant`. -/
def uuidVariant (id : Uuid) : UuidVariant :=
  if id &&& 0x8000 <<< 48 = 0 then .reservedNcs
  else if id &&& 0x4000 <<< 48 = 0 then .rfc4122
  else if id &&& 0x2000 <<< 48 = 0 then .reservedMicrosoft
  else .reservedFuture

/-- `UUID.version`. -/
def uuidVersion (id : Uuid) : Option ℕ :=
  if uuidVariant id = .rfc4122 then some (id >>> 76 &&& 0xf) else none

/-- Widths of the fields of RFC 9562: `unix_ts_ms`, `ver`, `rand_a`, `var` and `rand_b`. -/
def uuid7Layout : List ℕ := [48, 4, 12, 2, 62]

variable {unixMs randomA randomB n : ℕ}

def uuid7Fields (hms : unixMs < 2 ^ 48) (ha : randomA < 2 ^ 12) (hb : randomB < 2 ^ 62) :
    List Field :=
  [⟨48, unixMs, hms⟩, ⟨4, 7, by decide⟩, ⟨12, randomA, ha⟩, ⟨2, 0b10, by decide⟩, ⟨62, randomB, hb⟩]

/- The shifts are those of the fields one after the other. -/
theorem uuid7Value_eq_pack (hms : unixMs < 2 ^ 48) (ha : randomA < 2 ^ 12) (hb : randomB < 2 ^ 62) :
    uuid7Value unixMs randomA randomB = pack (uuid7Fields hms ha hb) := by
  have hlast : randomB <<< 0 ||| 0 = randomB := by rw [Nat.shiftLeft_zero, Nat.or_zero]
  show _ = unixMs <<< 80 ||| (0x7 <<< 76 ||| (randomA <<< 64 ||| (0b10 <<< 62 |||
    (randomB <<< 0 ||| 0))))
  rw [hlast, uuid7Value, Nat.or_assoc, Nat.or_assoc, Nat.or_assoc]

theorem unpack_uuid7Value (hms : unixMs < 2 ^ 48) (ha : randomA < 2 ^ 12) (hb : randomB < 2 ^ 62) :
    unpack uuid7Layout (uuid7Value unixMs randomA randomB) = [unixMs, 7, randomA, 0b10, randomB] := by
  rw [uuid7Value_eq_pack hms ha hb]
  exact unpack_pack (uuid7Fields hms ha hb)

theorem uuid7Value_lt (hms : unixMs < 2 ^ 48) (ha : randomA < 2 ^ 12) (hb : randomB < 2 ^ 62) :
    uuid7Value unixMs randomA randomB < 2 ^ 128 := by
  rw [uuid7Value_eq_pack hms ha hb]
  exact pack_lt (uuid7Fields hms ha hb)

theorem uuid7Value_lt_uuid7Value {unixMs' randomA' randomB' : ℕ} (hms : unixMs < 2 ^ 48)
    (ha : randomA < 2 ^ 12) (hb : randomB < 2 ^ 62) (hms' : unixMs' < 2 ^ 48)
    (ha' : randomA' < 2 ^ 12) (hb' : randomB' < 2 ^ 62) (h : unixMs < unixMs') :
    uuid7Value unixMs randomA randomB < uuid7Value unixMs' randomA' randomB' := by
  rw [uuid7Value_eq_pack hms ha hb, uuid7Value_eq_pack hms' ha' hb']
  exact pack_lt_pack h rfl

/-! ### Version and variant -/

theorem and_two_pow_eq_zero_iff (n i : ℕ) : n &&& 2 ^ i = 0 ↔ n / 2 ^ i % 2 = 0 := by
  rw [Nat.and_two_pow, Nat.testBit_eq_decide_div_mod_eq]
  by_cases h : n / 2 ^ i % 2 = 1
  · have hpos := Nat.two_pow_pos i
    rw [decide_eq_true h, Bool.toNat_true, Nat.one_mul]
    omega
  · rw [decide_eq_false h, Bool.toNat_false, Nat.zero_mul]
    omega

/- The two bits `10` are the variant of RFC 4122. -/
theorem uuidVariant_of_bits (h : n >>> 62 % 2 ^ 2 = 0b10) : uuidVariant n = .rfc4122 := by
  rw [Nat.shiftRight_eq_div_pow] at h
  have hhigh : n / 2 ^ 63 % 2 = 1 := by omega
  have hlow : n / 2 ^ 62 % 2 = 0 := by omega
  have hset : ¬ n &&& 2 ^ 63 = 0 := by
    rw [and_two_pow_eq_zero_iff]
    omega
  have hclear : n &&& 2 ^ 62 = 0 := (and_two_pow_eq_zero_iff n 62).mpr hlow
  exact (if_neg hset).trans (if_pos hclear)

theorem uuidVersion_of_bits (h : n >>> 62 % 2 ^ 2 = 0b10) :
    uuidVersion n = some (n >>> 76 % 2 ^ 4) := by
  have hmask : n >>> 76 &&& 0xf = n >>> 76 % 2 ^ 4 := Nat.and_two_pow_sub_one_eq_mod _ 4
  rw [uuidVersion, if_pos (uuidVariant_of_bits h), hmask]

/-! ### The layout -/

theorem uuid7_ok {timeNs : ℕ} (h : timeNs / 1000000 < 2 ^ 48) (ha : randomA < 2 ^ 12)
    (hb : randomB < 2 ^ 62) :
    uuid7 timeNs randomA randomB = .ok (uuid7Value (timeNs / 1000000) randomA randomB) := by
  have hfits : ¬ 1 <<< 48 ≤ timeNs / 1000000 := by
    show ¬ 2 ^ 48 ≤ timeNs / 1000000
    omega
  have hvalue : uuid7Value (timeNs / 1000000) randomA randomB < 1 <<< 128 := uuid7Value_lt h ha hb
  rw [uuid7, if_neg hfits, uuidOfInt, if_pos hvalue]

/- What `uuid7` makes of a time and random bits. -/
theorem uuid7_layout (unixMs randomA randomB : ℕ) (hms : unixMs < 2 ^ 48) (ha : randomA < 2 ^ 12)
    (hb : randomB < 2 ^ 62) :
    uuid7Value unixMs randomA randomB < 2 ^ 128 ∧
      unpack uuid7Layout (uuid7Value unixMs randomA randomB) = [unixMs, 7, randomA, 0b10, randomB] ∧
      uuidVersion (uuid7Value unixMs randomA randomB) = some 7 ∧
      uuidVariant (uuid7Value unixMs randomA randomB) = .rfc4122 ∧
      (∀ timeNs, timeNs / 1000000 = unixMs →
        uuid7 timeNs randomA randomB = .ok (uuid7Value unixMs randomA randomB)) ∧
      ∀ unixMs' randomA' randomB', unixMs' < 2 ^ 48 → randomA' < 2 ^ 12 → randomB' < 2 ^ 62 →
        unixMs < unixMs' →
          uuid7Value unixMs randomA randomB < uuid7Value unixMs' randomA' randomB' := by
  have hfields := unpack_uuid7Value hms ha hb
  have hbits := hfields
  simp only [unpack, uuid7Layout, List.cons.injEq] at hbits
  obtain ⟨-, hversion, -, hvariant, -⟩ := hbits
  refine ⟨uuid7Value_lt hms ha hb, hfields, ?_, uuidVariant_of_bits hvariant, ?_, ?_⟩
  · rw [uuidVersion_of_bits hvariant]
    exact congrArg some hversion
  · rintro timeNs rfl
    exact uuid7_ok hms ha hb
  · intro unixMs' randomA' randomB' hms' ha' hb' hlt
    exact uuid7Value_lt_uuid7Value hms ha hb hms' ha' hb' hlt

theorem secondTwo_layout :
    unpack uuid7Layout (uuid7Value 1000 0xabc 5) = [1000, 7, 0xabc, 0b10, 5] ∧
      uuid7 1000000000 0xabc 5 = .ok (uuid7Value 1000 0xabc 5) ∧
      uuid7Value 1000 0xabc 5 < uuid7Value 1001 0 0 := by
  obtain ⟨-, hfields, -, -, huuid, horder⟩ :=
    uuid7_layout 1000 0xabc 5 (by decide) (by decide) (by decide)
  exact ⟨hfields, huuid 1000000000 (by decide),
    horder 1001 0 0 (by decide) (by decide) (by decide) (by decide)⟩

end Newsintel.Core
