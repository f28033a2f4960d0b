import Mathlib.Tactic.Common

/-!
# Bodies that may throw

A body changes a state and then returns a value or throws. What it changed before a throw
stays changed, and `ensure` is what unwinding runs in both cases (a destructor).
-/

namespace Framework

/-- A body over states `σ` that throws values of `ε`. -/
def Handler (σ ε α : Type) : Type := σ → Except ε α × σ

namespace Handler

variable {σ ε α β : Type}

instance : Monad (Handler σ ε) where
  pure a := fun s => (.ok a, s)
  bind h k := fun s =>
    match h s with
    | (.ok a, t) => k a t
    | (.error e, t) => (.error e, t)

def raise (e : ε) : Handler σ ε α := fun s => (.error e, s)

def lift (r : Except ε α) : Handler σ ε α := fun s => (r, s)

def get : Handler σ ε σ := fun s => (.ok s, s)

def modify (f : σ → σ) : Handler σ ε Unit := fun s => (.ok (), f s)

/-- An operation that throws when it fails, and else does nothing to the state. -/
def attempt (failure : Option ε) : Handler σ ε Unit :=
  match failure with
  | some e => raise e
  | none => pure ()

/-- Run the body, then the clean-up, whether the body returned or threw. -/
def ensure (h : Handler σ ε α) (cleanup : σ → σ) : Handler σ ε α := fun s =>
  ((h s).1, cleanup (h s).2)

@[simp] theorem lift_run (r : Except ε α) (s : σ) : (lift r : Handler σ ε α) s = (r, s) := rfl

@[simp] theorem modify_run (f : σ → σ) (s : σ) :
    (modify f : Handler σ ε Unit) s = (.ok (), f s) := rfl

theorem attempt_run (failure : Option ε) (s : σ) :
    attempt failure s = match failure with
      | some e => (.error e, s)
      | none => (.ok (), s) := by
  cases failure <;> rfl

@[simp] theorem ensure_run (h : Handler σ ε α) (cleanup : σ → σ) (s : σ) :
    ensure h cleanup s = ((h s).1, cleanup (h s).2) := rfl

theorem bind_run_ok {h : Handler σ ε α} {a : α} {s t : σ} (k : α → Handler σ ε β)
    (hs : h s = (.ok a, t)) : (h >>= k) s = k a t := by
  show (match h s with | (.ok a, t) => k a t | (.error e, t) => (.error e, t)) = _
  rw [hs]

theorem bind_run_error {h : Handler σ ε α} {e : ε} {s t : σ} (k : α → Handler σ ε β)
    (hs : h s = (.error e, t)) : (h >>= k) s = (.error e, t) := by
  show (match h s with | (.ok a, t) => k a t | (.error e, t) => (.error e, t)) = _
  rw [hs]

theorem bind_run_eq_ok {h : Handler σ ε α} {k : α → Handler σ ε β} {b : β} {s t : σ}
    (hb : (h >>= k) s = (.ok b, t)) : ∃ a u, h s = (.ok a, u) ∧ k a u = (.ok b, t) := by
  cases hs : h s with
  | mk r u =>
      cases r with
      | ok a => exact ⟨a, u, rfl, (bind_run_ok k hs).symm.trans hb⟩
      | error e =>
          have := (bind_run_error k hs).symm.trans hb
          simp at this

@[simp] theorem modify_bind_run (f : σ → σ) (k : Unit → Handler σ ε β) (s : σ) :
    (modify f >>= k) s = k () (f s) := rfl

@[simp] theorem get_bind_run (k : σ → Handler σ ε β) (s : σ) : (get >>= k) s = k s s := rfl

end Handler

end Framework
