import Mathlib.Data.List.Induction
import Mathlib.Tactic.Common

/-!
# Machines driven by their environment

A machine takes one event after another. An event is one choice of the environment, and a
step that answers `none` says that the environment cannot make this choice in this state.
A run is a list of events, so a statement about every run is a statement about every order
in which the environment can act.
-/

namespace Framework

/-- A machine: where it starts, and what each event does to each state. -/
structure Machine (σ ε : Type*) where
  init : σ
  step : σ → ε → Option σ

namespace Machine

variable {σ τ ε : Type*}

/-- Take the events one after another; `none` as soon as one of them is impossible. -/
def runFrom (M : Machine σ ε) : σ → List ε → Option σ
  | s, [] => some s
  | s, e :: es => (M.step s e).bind fun t => M.runFrom t es

def run (M : Machine σ ε) (es : List ε) : Option σ := M.runFrom M.init es

def Reachable (M : Machine σ ε) (s : σ) : Prop := ∃ es, M.run es = some s

/-- Every possible step of the run meets the condition `C` on the state before it and its event. -/
def AllSteps (M : Machine σ ε) (C : σ → ε → Prop) : σ → List ε → Prop
  | _, [] => True
  | s, e :: es => ∀ t, M.step s e = some t → C s e ∧ M.AllSteps C t es

theorem allSteps_cons_of_eq_some {M : Machine σ ε} {C : σ → ε → Prop} {s t : σ} {e : ε}
    {es : List ε} (h : M.step s e = some t) :
    M.AllSteps C s (e :: es) ↔ C s e ∧ M.AllSteps C t es := by
  simp only [AllSteps, h, Option.some.injEq, forall_eq']

instance decidableAllSteps (M : Machine σ ε) (C : σ → ε → Prop) [∀ s e, Decidable (C s e)] :
    ∀ s es, Decidable (M.AllSteps C s es)
  | _, [] => isTrue trivial
  | s, e :: es =>
    match h : M.step s e with
    | none => isTrue fun t ht => by simp [h] at ht
    | some t =>
      have := decidableAllSteps M C t es
      decidable_of_iff _ (allSteps_cons_of_eq_some h).symm

/-- `P` holds in every state the run passes through, the first one included. -/
def Throughout (M : Machine σ ε) (P : σ → Prop) : σ → List ε → Prop
  | s, [] => P s
  | s, e :: es => P s ∧ ∀ t, M.step s e = some t → M.Throughout P t es

def Preserves (M : Machine σ ε) (I : σ → Prop) : Prop :=
  ∀ s e t, I s → M.step s e = some t → I t

section Runs

variable {M : Machine σ ε} {s t : σ}

@[simp] theorem runFrom_nil (s : σ) : M.runFrom s [] = some s := rfl

theorem runFrom_cons_eq_some (e : ε) (es : List ε) :
    M.runFrom s (e :: es) = some t ↔ ∃ u, M.step s e = some u ∧ M.runFrom u es = some t := by
  simp only [runFrom, Option.bind_eq_some_iff]

theorem runFrom_append_eq_some (es fs : List ε) :
    M.runFrom s (es ++ fs) = some t ↔ ∃ u, M.runFrom s es = some u ∧ M.runFrom u fs = some t := by
  induction es generalizing s with
  | nil => simp
  | cons e es ih =>
      simp only [List.cons_append, runFrom_cons_eq_some, ih]
      constructor
      · rintro ⟨u, hu, v, hv, ht⟩
        exact ⟨v, ⟨u, hu, hv⟩, ht⟩
      · rintro ⟨v, ⟨u, hu, hv⟩, ht⟩
        exact ⟨u, hu, v, hv, ht⟩

theorem run_concat_eq_some (es : List ε) (e : ε) :
    M.run (es ++ [e]) = some t ↔ ∃ u, M.run es = some u ∧ M.step u e = some t := by
  simp only [run, runFrom_append_eq_some, runFrom_cons_eq_some, runFrom_nil, Option.some.injEq,
    exists_eq_right]

end Runs

section Invariants

variable {M : Machine σ ε} {I P : σ → Prop} {C : σ → ε → Prop} {s t : σ} {es : List ε}

theorem Preserves.runFrom (h : M.Preserves I) (hs : I s) (hr : M.runFrom s es = some t) : I t := by
  induction es generalizing s with
  | nil =>
      obtain rfl : s = t := by simpa using hr
      exact hs
  | cons e es ih =>
      obtain ⟨u, hu, hr⟩ := (runFrom_cons_eq_some e es).mp hr
      exact ih (h s e u hs hu) hr

theorem Preserves.run (h : M.Preserves I) (h0 : I M.init) (hr : M.run es = some t) : I t :=
  h.runFrom h0 hr

theorem Preserves.reachable (h : M.Preserves I) (h0 : I M.init) (hr : M.Reachable t) : I t := by
  obtain ⟨es, hes⟩ := hr
  exact h.run h0 hes

/-- What relates the events taken so far to the state: it holds at the start, and each further
event keeps it. -/
theorem run_induction {J : List ε → σ → Prop} (h0 : J [] M.init)
    (hstep : ∀ es s e t, J es s → M.step s e = some t → J (es ++ [e]) t)
    (hr : M.run es = some t) : J es t := by
  induction es using List.reverseRecOn generalizing t with
  | nil =>
      obtain rfl : M.init = t := by simpa [Machine.run] using hr
      exact h0
  | append_singleton es e ih =>
      obtain ⟨u, hu, ht⟩ := (run_concat_eq_some es e).mp hr
      exact hstep es u e t (ih hu) ht

/-- A measure that every step lowers bounds the length of every run. -/
theorem length_le_of_decreases (hI : M.Preserves I) (μ : σ → ℕ)
    (hμ : ∀ s e t, I s → M.step s e = some t → μ t < μ s)
    (hs : I s) (hr : M.runFrom s es = some t) : es.length + μ t ≤ μ s := by
  induction es generalizing s with
  | nil =>
      obtain rfl : s = t := by simpa using hr
      simp
  | cons e es ih =>
      obtain ⟨u, hu, hr⟩ := (runFrom_cons_eq_some e es).mp hr
      have h1 := ih (hI s e u hs hu) hr
      have h2 := hμ s e u hs hu
      simp only [List.length_cons]
      omega

end Invariants

section Conditions

variable {M : Machine σ ε} {I P : σ → Prop} {C : σ → ε → Prop} {s t : σ} {es : List ε}

theorem Throughout.last (h : M.Throughout P s es) (hr : M.runFrom s es = some t) : P t := by
  induction es generalizing s with
  | nil =>
      obtain rfl : s = t := by simpa using hr
      exact h
  | cons e es ih =>
      obtain ⟨u, hu, hr⟩ := (runFrom_cons_eq_some e es).mp hr
      exact ih (h.2 u hu) hr

theorem AllSteps.throughout (hI : M.Preserves I)
    (hstep : ∀ s e t, I s → P s → C s e → M.step s e = some t → P t)
    (hs : I s) (hp : P s) (h : M.AllSteps C s es) : M.Throughout P s es := by
  induction es generalizing s with
  | nil => exact hp
  | cons e es ih =>
      refine ⟨hp, fun t ht => ?_⟩
      obtain ⟨hC, hrest⟩ := h t ht
      exact ih (hI s e t hs ht) (hstep s e t hs hp hC ht) hrest

theorem Throughout.first (h : M.Throughout P s es) : P s := by
  cases es with
  | nil => exact h
  | cons e es => exact h.1

theorem Throughout.allSteps (hI : M.Preserves I)
    (hstep : ∀ s e t, I s → P t → M.step s e = some t → C s e)
    (hs : I s) (h : M.Throughout P s es) : M.AllSteps C s es := by
  induction es generalizing s with
  | nil => trivial
  | cons e es ih =>
      intro t ht
      exact ⟨hstep s e t hs (h.2 t ht).first ht, ih (hI s e t hs ht) (h.2 t ht)⟩

/-- Where a step keeps `P` exactly when it meets `C`, the runs that keep `P` throughout are
exactly those all of whose steps meet `C`. -/
theorem throughout_iff_allSteps (hI : M.Preserves I)
    (hstep : ∀ s e t, I s → P s → M.step s e = some t → (P t ↔ C s e))
    (hs : I s) (hp : P s) : M.Throughout P s es ↔ M.AllSteps C s es := by
  constructor
  · intro h
    induction es generalizing s with
    | nil => trivial
    | cons e es ih =>
        intro t ht
        have hpt : P t := (h.2 t ht).first
        exact ⟨(hstep s e t hs hp ht).mp hpt, ih (hI s e t hs ht) hpt (h.2 t ht)⟩
  · exact AllSteps.throughout hI (fun s e t hs hp hC ht => (hstep s e t hs hp ht).mpr hC) hs hp

/-- Conditions carry over from a machine to one that it can follow step by step. -/
theorem AllSteps.transfer {N : Machine τ ε} {D : τ → ε → Prop} {R : σ → τ → Prop} {u : τ}
    (hstep : ∀ s u e v, R s u → N.step u e = some v → ∃ t, M.step s e = some t ∧ R t v)
    (hC : ∀ s u e, R s u → C s e → D u e) (hR : R s u) (h : M.AllSteps C s es) :
    N.AllSteps D u es := by
  induction es generalizing s u with
  | nil => trivial
  | cons e es ih =>
      intro v hv
      obtain ⟨t, ht, hRt⟩ := hstep s u e v hR hv
      exact ⟨hC s u e hR (h t ht).1, ih hRt (h t ht).2⟩

/-- The same for a property that, once lost, is never regained: it holds at the end of a run
exactly when all the steps meet the condition. -/
theorem last_iff_allSteps (hI : M.Preserves I)
    (hgood : ∀ s e t, I s → P s → M.step s e = some t → (P t ↔ C s e))
    (hbad : ∀ s e t, I s → ¬ P s → M.step s e = some t → ¬ P t)
    (hs : I s) (hp : P s) (hr : M.runFrom s es = some t) : P t ↔ M.AllSteps C s es := by
  rw [← throughout_iff_allSteps hI hgood hs hp]
  refine ⟨?_, fun h => h.last hr⟩
  intro ht
  have hlost : ∀ (fs : List ε) (u : σ), I u → ¬ P u → M.runFrom u fs = some t → False := by
    intro fs u hu hnu hfs
    have hkeep : M.Preserves fun v => I v ∧ ¬ P v := fun v e w hv hw =>
      ⟨hI v e w hv.1 hw, hbad v e w hv.1 hv.2 hw⟩
    exact (hkeep.runFrom ⟨hu, hnu⟩ hfs).2 ht
  induction es generalizing s with
  | nil => exact hp
  | cons e es ih =>
      obtain ⟨u, hu, hr⟩ := (runFrom_cons_eq_some e es).mp hr
      refine ⟨hp, ?_⟩
      intro v hv
      obtain rfl : u = v := Option.some.inj (hu.symm.trans hv)
      have hIu := hI s e u hs hu
      by_cases hpu : P u
      · exact ih hIu hpu hr
      · exact (hlost es u hIu hpu hr).elim

theorem AllSteps.preserves (hstep : ∀ s e t, I s → C s e → M.step s e = some t → I t)
    (hs : I s) (h : M.AllSteps C s es) (hr : M.runFrom s es = some t) : I t := by
  induction es generalizing s with
  | nil =>
      obtain rfl : s = t := by simpa using hr
      exact hs
  | cons e es ih =>
      obtain ⟨u, hu, hr⟩ := (runFrom_cons_eq_some e es).mp hr
      exact ih (hstep s e u hs (h u hu).1 hu) (h u hu).2 hr

end Conditions

end Machine

end Framework
