import AsioSamples.Framework.Machine
import Mathlib.Data.List.Induction
import Mathlib.Tactic.Common

/-!
# Runs of specifications

A specification says of each event which outcomes it allows. A program follows a specification
when each of its steps has an outcome that is allowed, and then so do its runs.
-/

namespace Framework

variable {σ τ ε : Type*} {step : τ → ε → τ → Prop} {a b c : τ} {e : ε} {es : List ε}

/-- The runs of a system in which an event can have several outcomes. -/
inductive Runs (step : τ → ε → τ → Prop) : τ → List ε → τ → Prop
  | nil (a : τ) : Runs step a [] a
  | cons {a b c : τ} {e : ε} {es : List ε} (h : step a e b) (hr : Runs step b es c) :
      Runs step a (e :: es) c

namespace Runs

theorem concat (hr : Runs step a es b) (h : step b e c) : Runs step a (es ++ [e]) c := by
  induction hr with
  | nil a => exact .cons h (.nil c)
  | cons h' _ ih => exact .cons h' (ih h)

/-- A program whose steps are allowed has allowed runs. -/
theorem of_steps {f : σ → ε → σ} {R : σ → τ → Prop}
    (hstep : ∀ s a e, R s a → ∃ b, step a e b ∧ R (f s e) b) {s : σ} (hR : R s a) (es : List ε) :
    ∃ b, Runs step a es b ∧ R (es.foldl f s) b := by
  induction es using List.reverseRecOn with
  | nil => exact ⟨a, .nil a, hR⟩
  | append_singleton es e ih =>
      obtain ⟨b, hr, hb⟩ := ih
      obtain ⟨c, hc, hRc⟩ := hstep _ _ e hb
      refine ⟨c, hr.concat hc, ?_⟩
      rw [List.foldl_append]
      exact hRc

theorem preserves {I : τ → Prop} (hstep : ∀ a e b, I a → step a e b → I b) (ha : I a)
    (hr : Runs step a es b) : I b := by
  induction hr with
  | nil a => exact ha
  | cons h _ ih => exact ih (hstep _ _ _ ha h)

/-- What relates the events taken so far to the state. -/
theorem accumulates {J : List ε → τ → Prop}
    (hstep : ∀ es a e b, J es a → step a e b → J (es ++ [e]) b) (ha : J [] a)
    (hr : Runs step a es b) : J es b := by
  have hall : ∀ fs, J fs a → J (fs ++ es) b := by
    clear ha
    induction hr with
    | nil a => simp
    | @cons a b c e es h _ ih =>
        intro fs hfs
        have := ih (fs ++ [e]) (hstep fs _ _ _ hfs h)
        rwa [List.append_assoc] at this
  exact hall [] ha

end Runs

namespace Machine

variable {φ : Type*} {M : Machine σ ε} {N : Machine τ φ} {C : τ → φ → Prop} {R : σ → τ → Prop}

theorem AllSteps.append {t u : τ} {fs gs : List φ} (hfs : N.AllSteps C t fs)
    (hr : N.runFrom t fs = some u) (hgs : N.AllSteps C u gs) : N.AllSteps C t (fs ++ gs) := by
  induction fs generalizing t with
  | nil =>
      obtain rfl : t = u := by simpa using hr
      exact hgs
  | cons f fs ih =>
      obtain ⟨v, hv, hr⟩ := (runFrom_cons_eq_some f fs).mp hr
      rw [List.cons_append, allSteps_cons_of_eq_some hv]
      exact ⟨(hfs v hv).1, ih (hfs v hv).2 hr⟩

/-- A machine whose steps are runs of another one, in which all steps meet `C`, has runs that are
such runs. -/
theorem follows (h0 : R M.init N.init)
    (hstep : ∀ s e s' t, R s t → M.step s e = some s' →
      ∃ fs t', N.runFrom t fs = some t' ∧ N.AllSteps C t fs ∧ R s' t')
    {s : σ} (hr : M.run es = some s) :
    ∃ fs t, N.run fs = some t ∧ N.AllSteps C N.init fs ∧ R s t := by
  refine run_induction (J := fun _ s => ∃ fs t, N.run fs = some t ∧ N.AllSteps C N.init fs ∧ R s t)
    ⟨[], N.init, rfl, trivial, h0⟩ (fun es s e s' hs he => ?_) hr
  obtain ⟨fs, t, hfs, hall, hR⟩ := hs
  obtain ⟨gs, t', hgs, hall', hR'⟩ := hstep s e s' t hR he
  exact ⟨fs ++ gs, t', (runFrom_append_eq_some fs gs).mpr ⟨t, hfs, hgs⟩, hall.append hfs hall', hR'⟩

end Machine

end Framework
