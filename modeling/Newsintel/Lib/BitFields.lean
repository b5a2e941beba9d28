import Mathlib.Data.Nat.Bitwise
import Mathlib.Tactic.Common

/-!
# Bit fields

Numbers that are written from fields of fixed widths, the most significant one first, by shifts
and ors. The fields do not overlap, can be read back, and the first one decides the order.
-/

namespace Newsintel.BitFields

/-- A value of so many bits. -/
structure Field where
  width : ℕ
  value : ℕ
  fits : value < 2 ^ width

def widths (fs : List Field) : List ℕ := fs.map Field.width

def values (fs : List Field) : List ℕ := fs.map Field.value

def pack : List Field → ℕ
  | [] => 0
  | f :: fs => f.value <<< (widths fs).sum ||| pack fs

/-- The values of fields of these widths. -/
def unpack : List ℕ → ℕ → List ℕ
  | [], _ => []
  | w :: ws, n => n >>> ws.sum % 2 ^ w :: unpack ws n

variable {f g : Field} {fs gs : List Field} {ws : List ℕ} {n : ℕ}

theorem widths_cons (f : Field) (fs : List Field) : widths (f :: fs) = f.width :: widths fs := rfl

theorem pack_lt (fs : List Field) : pack fs < 2 ^ (widths fs).sum := by
  induction fs with
  | nil => exact Nat.one_pos
  | cons f fs ih =>
    have hvalue : f.value <<< (widths fs).sum < 2 ^ (f.width + (widths fs).sum) := by
      rw [Nat.shiftLeft_eq, Nat.pow_add]
      exact Nat.mul_lt_mul_of_pos_right f.fits (Nat.two_pow_pos _)
    have hrest : pack fs < 2 ^ (f.width + (widths fs).sum) :=
      lt_of_lt_of_le ih (Nat.pow_le_pow_right (by omega) (by omega))
    rw [widths_cons, List.sum_cons]
    exact Nat.or_lt_two_pow hvalue hrest

/- A field lies above the ones behind it. -/
theorem pack_cons (f : Field) (fs : List Field) :
    pack (f :: fs) = f.value * 2 ^ (widths fs).sum + pack fs := by
  rw [pack, ← Nat.shiftLeft_add_eq_or_of_lt (pack_lt fs), Nat.shiftLeft_eq]

theorem shiftRight_pack (f : Field) (fs : List Field) :
    pack (f :: fs) >>> (widths fs).sum = f.value := by
  rw [pack_cons, Nat.shiftRight_eq_div_pow, Nat.mul_comm, Nat.mul_add_div (Nat.two_pow_pos _),
    Nat.div_eq_of_lt (pack_lt fs), Nat.add_zero]

/- What stands above the fields is not read. -/
theorem unpack_add (a n : ℕ) : unpack ws (a * 2 ^ ws.sum + n) = unpack ws n := by
  induction ws generalizing a with
  | nil => rfl
  | cons w ws ih =>
    have hsplit : a * 2 ^ (w :: ws).sum + n = (a * 2 ^ w) * 2 ^ ws.sum + n := by
      rw [List.sum_cons, Nat.pow_add, Nat.mul_assoc]
    have hhead : ((a * 2 ^ w) * 2 ^ ws.sum + n) >>> ws.sum = a * 2 ^ w + n >>> ws.sum := by
      rw [Nat.shiftRight_eq_div_pow, Nat.shiftRight_eq_div_pow, Nat.mul_comm _ (2 ^ ws.sum),
        Nat.mul_add_div (Nat.two_pow_pos _)]
    rw [hsplit, unpack, unpack, ih, hhead, Nat.mul_add_mod']

/- The fields are read back. -/
theorem unpack_pack (fs : List Field) : unpack (widths fs) (pack fs) = values fs := by
  induction fs with
  | nil => rfl
  | cons f fs ih =>
    have hrest : unpack (widths fs) (pack (f :: fs)) = values fs := by
      rw [pack_cons, unpack_add, ih]
    rw [widths_cons, unpack, shiftRight_pack, Nat.mod_eq_of_lt f.fits, hrest]
    rfl

/- The first fields decide the order when they differ. -/
theorem pack_lt_pack (h : f.value < g.value) (hwidths : widths fs = widths gs) :
    pack (f :: fs) < pack (g :: gs) := by
  have hle : (f.value + 1) * 2 ^ (widths gs).sum ≤ g.value * 2 ^ (widths gs).sum :=
    Nat.mul_le_mul_right _ h
  have hlt : pack fs < 2 ^ (widths gs).sum := hwidths ▸ pack_lt fs
  rw [pack_cons, pack_cons, hwidths]
  rw [Nat.add_mul] at hle
  omega

end Newsintel.BitFields
