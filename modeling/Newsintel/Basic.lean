import Mathlib.Data.Int.Notation
import Mathlib.Data.List.Basic

/-!
# Scalars shared by all tables and services

Python strings are lists of Unicode scalar values, so that slicing, splitting
and searching are list functions. Instants are microseconds since the epoch,
the resolution of `datetime`; identifiers are the 128-bit values of `uuid7`,
compared for equality only.
-/

namespace Newsintel

abbrev Text := List Char
abbrev Bytes := List UInt8
abbrev Uuid := ℕ
abbrev Timestamp := ℤ

/-- The bytes of an ASCII text. -/
def asciiBytes (text : Text) : Bytes := text.map fun c => UInt8.ofNat c.toNat

/-- The exception classes that handlers of the program tell apart. -/
inductive PyError where
  | valueError
  /-- subclass of `ValueError` -/
  | unicodeError
  /-- pydantic's, a subclass of `ValueError` -/
  | validationError
  | overflowError
  | typeError
  | lookupError
  | resourceConflictError
  | integrityError
  | runtimeError
  /-- of `xml.etree.ElementTree`, a subclass of `SyntaxError` -/
  | parseError
  deriving DecidableEq, Repr

/-- Caught by `except ValueError`. -/
def PyError.isValueError : PyError → Bool
  | .valueError | .unicodeError | .validationError | .resourceConflictError => true
  | _ => false

theorem bind_ok {ε α β : Type} {x : Except ε α} {f : α → Except ε β} {b : β}
    (h : x >>= f = .ok b) : ∃ a, x = .ok a ∧ f a = .ok b := by
  cases x with
  | error e => cases h
  | ok a => exact ⟨a, rfl, h⟩

theorem ok_bind {ε α β : Type} (a : α) (f : α → Except ε β) : (Except.ok a >>= f) = f a := rfl

theorem map_injective {ε α β : Type} {f : α → β} (hf : Function.Injective f) {x y : Except ε α}
    (h : x.map f = y.map f) : x = y := by
  cases x with
  | error e =>
    cases y with
    | error e' => exact congrArg _ (Except.error.inj h)
    | ok b => cases h
  | ok a =>
    cases y with
    | error e' => cases h
    | ok b => exact congrArg _ (hf (Except.ok.inj h))

theorem ok_of_toOption {ε α : Type} {x : Except ε α} {a : α} (h : x.toOption = some a) :
    x = .ok a := by
  cases x with
  | error e => cases h
  | ok b => exact congrArg Except.ok (Option.some.inj h)

/-- `timedelta(seconds=n)`. -/
def seconds (n : ℤ) : ℤ := n * 1000000

/-- `timedelta(hours=n)`. -/
def hours (n : ℤ) : ℤ := seconds (n * 3600)

/-- Python's `round` of the fraction `n / d`, ties to the even neighbour. -/
def roundHalfEven (n d : ℤ) : ℤ :=
  if 2 * (n % d) < d then n / d
  else if d < 2 * (n % d) then n / d + 1
  else if (n / d) % 2 = 0 then n / d else n / d + 1

theorem le_roundHalfEven (n d : ℤ) : n / d ≤ roundHalfEven n d := by
  unfold roundHalfEven
  split_ifs <;> omega

end Newsintel
