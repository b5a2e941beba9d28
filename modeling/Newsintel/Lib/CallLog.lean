import Mathlib.Tactic.Common

/-!
# Programs that call out

A program in a fixed environment is what it returns or raises together with the calls
it made on the way, each with whether it returned. The rules below read the calls and
the result of a sequence, and of a guarded region, off those of its parts.
-/

namespace Newsintel

/-- A call that was made, and whether it returned or raised. -/
structure Made (κ : Type) where
  call : κ
  returned : Bool
  deriving DecidableEq, Repr

structure Logged (κ ε α : Type) where
  result : Except ε α
  calls : List (Made κ)

namespace Logged

variable {κ ε α β : Type}

/-- One call to the environment, which answers with `outcome`. -/
def perform (call : κ) (outcome : Except ε α) : Logged κ ε α :=
  ⟨outcome, [⟨call, outcome.toBool⟩]⟩

/-- A step that makes no call. -/
def lift (outcome : Except ε α) : Logged κ ε α := ⟨outcome, []⟩

def bind (x : Logged κ ε α) (f : α → Logged κ ε β) : Logged κ ε β :=
  match x.result with
  | .ok a => ⟨(f a).result, x.calls ++ (f a).calls⟩
  | .error e => ⟨.error e, x.calls⟩

/-- `try: x except Exception as e: handler(e)`. -/
def guard (x : Logged κ ε α) (handler : ε → Logged κ ε α) : Logged κ ε α :=
  match x.result with
  | .ok _ => x
  | .error e => ⟨(handler e).result, x.calls ++ (handler e).calls⟩

instance : Monad (Logged κ ε) where
  pure a := lift (.ok a)
  bind := bind

instance : MonadExceptOf ε (Logged κ ε) where
  throw e := lift (.error e)
  tryCatch := guard

variable {x : Logged κ ε α} {f : α → Logged κ ε β} {handler : ε → Logged κ ε α} {a : α} {b : β}
  {e : ε} {p : Made κ → Prop}

@[simp] theorem pure_result : (pure a : Logged κ ε α).result = .ok a := rfl

@[simp] theorem pure_calls : (pure a : Logged κ ε α).calls = [] := rfl

@[simp] theorem throw_result : (throw e : Logged κ ε α).result = .error e := rfl

@[simp] theorem throw_calls : (throw e : Logged κ ε α).calls = [] := rfl

@[simp] theorem lift_result (o : Except ε α) : (lift o : Logged κ ε α).result = o := rfl

@[simp] theorem lift_calls (o : Except ε α) : (lift o : Logged κ ε α).calls = [] := rfl

@[simp] theorem perform_result (c : κ) (o : Except ε α) : (perform c o).result = o := rfl

@[simp] theorem perform_calls (c : κ) (o : Except ε α) :
    (perform c o).calls = [⟨c, o.toBool⟩] := rfl

theorem bind_of_ok (h : x.result = .ok a) :
    x >>= f = ⟨(f a).result, x.calls ++ (f a).calls⟩ := by
  show bind x f = _
  rw [bind, h]

theorem bind_of_error (h : x.result = .error e) : x >>= f = ⟨.error e, x.calls⟩ := by
  show bind x f = _
  rw [bind, h]

theorem guard_of_ok (h : x.result = .ok a) : guard x handler = x := by
  rw [guard, h]

theorem guard_of_error (h : x.result = .error e) :
    guard x handler = ⟨(handler e).result, x.calls ++ (handler e).calls⟩ := by
  rw [guard, h]

/- A sequence returns when its parts do. -/
theorem bind_ok_iff :
    (x >>= f).result = .ok b ↔ ∃ a, x.result = .ok a ∧ (f a).result = .ok b := by
  cases h : x.result with
  | ok a => simp [bind_of_ok h]
  | error e => simp [bind_of_error h]

/- What all calls of both parts meet, all calls of the sequence meet. -/
theorem forall_calls_bind (hx : ∀ m ∈ x.calls, p m)
    (hf : ∀ a, x.result = .ok a → ∀ m ∈ (f a).calls, p m) : ∀ m ∈ (x >>= f).calls, p m := by
  cases h : x.result with
  | ok a =>
    rw [bind_of_ok h]
    intro m hm
    rcases List.mem_append.mp hm with hm | hm
    · exact hx m hm
    · exact hf a h m hm
  | error e =>
    rw [bind_of_error h]
    exact hx

theorem forall_calls_perform {c : κ} {o : Except ε α} (h : p ⟨c, o.toBool⟩) :
    ∀ m ∈ (perform c o).calls, p m := by
  intro m hm
  rw [perform_calls, List.mem_singleton] at hm
  rw [hm]
  exact h

end Logged

end Newsintel
