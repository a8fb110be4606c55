import Mathlib.Data.List.Basic
import Mathlib.Tactic.Common

/-!
# Computations that record the calls they make

A computation ends with a value or with an exception, and carries the calls to another party
that it made, in order. A handler goes on from the exception, with the calls kept.
-/

namespace BifrostSocket.TracedCalls

structure Traced (ε κ α : Type) where
  result : Except ε α
  calls : List κ

namespace Traced

variable {ε κ α β : Type}

/-- A computation that makes no call. -/
def ofExcept (r : Except ε α) : Traced ε κ α := ⟨r, []⟩

def raise (e : ε) : Traced ε κ α := ⟨.error e, []⟩

protected def pure (a : α) : Traced ε κ α := ⟨.ok a, []⟩

protected def bind (x : Traced ε κ α) (f : α → Traced ε κ β) : Traced ε κ β :=
  match x.result with
  | .ok a => ⟨(f a).result, x.calls ++ (f a).calls⟩
  | .error e => ⟨.error e, x.calls⟩

instance : Monad (Traced ε κ) where
  pure := Traced.pure
  bind := Traced.bind

/-- `try` and `except`. -/
def handle (x : Traced ε κ α) (handler : ε → Traced ε κ α) : Traced ε κ α :=
  match x.result with
  | .ok _ => x
  | .error e => ⟨(handler e).result, x.calls ++ (handler e).calls⟩

variable {x : Traced ε κ α} {f : α → Traced ε κ β} {handler : ε → Traced ε κ α} {a : α} {e : ε}

@[simp] theorem result_pure : (pure a : Traced ε κ α).result = .ok a := rfl

@[simp] theorem calls_pure : (pure a : Traced ε κ α).calls = [] := rfl

@[simp] theorem result_raise : (raise e : Traced ε κ α).result = .error e := rfl

@[simp] theorem calls_raise : (raise e : Traced ε κ α).calls = [] := rfl

@[simp] theorem result_ofExcept (r : Except ε α) : (ofExcept r : Traced ε κ α).result = r := rfl

@[simp] theorem calls_ofExcept (r : Except ε α) : (ofExcept r : Traced ε κ α).calls = [] := rfl

theorem bind_of_ok (h : x.result = .ok a) :
    x >>= f = ⟨(f a).result, x.calls ++ (f a).calls⟩ := by
  show Traced.bind x f = _
  rw [Traced.bind, h]

theorem bind_of_error (h : x.result = .error e) : x >>= f = ⟨.error e, x.calls⟩ := by
  show Traced.bind x f = _
  rw [Traced.bind, h]

/-- What is made of the value makes no call. -/
theorem calls_bind_pure {g : α → β} : (x >>= fun a => pure (g a)).calls = x.calls := by
  cases hx : x.result with
  | ok a =>
    rw [bind_of_ok hx]
    exact List.append_nil _
  | error e => rw [bind_of_error hx]

theorem handle_of_ok (h : x.result = .ok a) : x.handle handler = x := by
  rw [handle, h]

theorem handle_of_error (h : x.result = .error e) :
    x.handle handler = ⟨(handler e).result, x.calls ++ (handler e).calls⟩ := by
  rw [handle, h]

/-- A handler that raises again changes nothing. -/
theorem handle_raise : x.handle raise = x := by
  cases hx : x.result with
  | ok a => rw [handle_of_ok hx]
  | error e =>
    rw [handle_of_error hx, result_raise, calls_raise, List.append_nil, ← hx]

theorem handle_returns (h : ∀ e, ∃ a, (handler e).result = .ok a) :
    ∃ a, (x.handle handler).result = .ok a := by
  cases hx : x.result with
  | ok a => exact ⟨a, by rw [handle_of_ok hx, hx]⟩
  | error e =>
    rw [handle_of_error hx]
    exact h e

section Ends

variable {P : α → Prop} {Q : β → Prop} {failed reported : κ → Prop}

/-- What is returned after a call is of this kind. -/
def ReturnsOnly (x : Traced ε κ α) (P : α → Prop) : Prop :=
  x.calls ≠ [] → ∀ a, x.result = .ok a → P a

theorem returnsOnly_pure : (pure a : Traced ε κ α).ReturnsOnly P := fun h => absurd rfl h

theorem returnsOnly_ofExcept_bind {r : Except ε α} (h : ∀ a, (f a).ReturnsOnly Q) :
    (ofExcept r >>= f).ReturnsOnly Q := by
  cases r with
  | ok a =>
    rw [bind_of_ok rfl]
    exact h a
  | error e => exact fun hcalls => absurd rfl hcalls

theorem returnsOnly_bind_pure {g : α → β} (h : ∀ a, Q (g a)) :
    (x >>= fun a => pure (g a)).ReturnsOnly Q := by
  intro _ b hb
  cases hx : x.result with
  | ok a =>
    rw [bind_of_ok hx] at hb
    cases hb
    exact h a
  | error e =>
    rw [bind_of_error hx] at hb
    cases hb

/-- A call that failed is reported exactly where the computation raises. -/
def Surfaces (failed reported : κ → Prop) (x : Traced ε κ α) : Prop :=
  ∀ k ∈ x.calls, failed k → (reported k ↔ ∃ e, x.result = .error e)

theorem surfaces_pure : (pure a : Traced ε κ α).Surfaces failed reported :=
  fun _ hk => absurd hk List.not_mem_nil

/-- A handler that returns hides every failure. -/
theorem surfaces_handle (h : ∀ e, ∃ a, (handler e).result = .ok a) :
    (x.handle handler).Surfaces failed fun _ => False := by
  obtain ⟨a, ha⟩ := handle_returns (x := x) h
  intro k _ _
  rw [ha]
  simp

theorem surfaces_ofExcept_bind {r : Except ε α} (h : ∀ a, (f a).Surfaces failed reported) :
    (ofExcept r >>= f).Surfaces failed reported := by
  cases r with
  | ok a =>
    rw [bind_of_ok rfl]
    exact h a
  | error e => exact fun _ hk => absurd hk List.not_mem_nil

theorem Surfaces.bind_pure {g : α → β} (h : x.Surfaces failed reported) :
    (x >>= fun a => pure (g a)).Surfaces failed reported := by
  intro k hk hfail
  rw [calls_bind_pure] at hk
  rw [h k hk hfail]
  cases hx : x.result with
  | ok a => simp [bind_of_ok hx]
  | error e => simp [bind_of_error hx]

end Ends

end Traced

end BifrostSocket.TracedCalls
