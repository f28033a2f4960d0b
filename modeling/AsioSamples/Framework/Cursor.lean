import Mathlib.Data.List.TakeDrop

/-!
# Cursors

A cursor gives a list out in pieces: it prepares some of the items that come next, and consumes
as many of them as were taken. What it prepares, and in how many pieces, is its own affair.
-/

namespace Framework

structure Cursor (σ α : Type*) where
  empty : σ → Bool
  prepare : ℕ → σ → List (List α)
  consume : ℕ → σ → σ
  totalConsumed : σ → ℕ

namespace Cursor

variable {σ α : Type*}

/-- The cursor gives out the data: `At k s` holds where the first `k` items are consumed. -/
structure Serves (C : Cursor σ α) (data : List α) (At : ℕ → σ → Prop) : Prop where
  le : ∀ {k s}, At k s → k ≤ data.length
  empty_iff : ∀ {k s}, At k s → (C.empty s = true ↔ k = data.length)
  totalConsumed : ∀ {k s}, At k s → C.totalConsumed s = k
  prepare : ∀ {k s}, At k s → ∀ m, (C.prepare m s).flatten <+: (data.drop k).take m
  prepare_ne_nil : ∀ {k s}, At k s → ∀ {m}, 0 < m → k < data.length →
    (C.prepare m s).flatten ≠ []
  consume : ∀ {k s}, At k s → ∀ {n}, k + n ≤ data.length → At (k + n) (C.consume n s)

/-- The prepared items of which `n` are taken. -/
def given (C : Cursor σ α) (m n : ℕ) (s : σ) : List α := (C.prepare m s).flatten.take n

variable {C : Cursor σ α} {data : List α} {At : ℕ → σ → Prop} {k m n : ℕ} {s : σ}

theorem Serves.given_length_le (h : C.Serves data At) (hs : At k s) :
    (C.given m n s).length ≤ min m n := by
  have hfirst := (h.prepare hs m).length_le
  simp only [List.length_take, given] at hfirst ⊢
  omega

theorem Serves.given_le (h : C.Serves data At) (hs : At k s) :
    k + (C.given m n s).length ≤ data.length := by
  have hle := h.le hs
  have hfirst := (h.prepare hs m).length_le
  simp only [List.length_take, List.length_drop, given] at hfirst ⊢
  omega

theorem Serves.take_append_given (h : C.Serves data At) (hs : At k s) :
    data.take k ++ C.given m n s = data.take (k + (C.given m n s).length) := by
  have hfirst : C.given m n s <+: data.drop k :=
    ((List.take_prefix _ _).trans (h.prepare hs m)).trans (List.take_prefix _ _)
  rw [List.take_add, ← List.prefix_iff_eq_take.mp hfirst]

theorem Serves.given_pos (h : C.Serves data At) (hs : At k s) (hm : 0 < m) (hn : 0 < n)
    (hk : k < data.length) : 0 < (C.given m n s).length := by
  have hne := List.length_pos_iff.mpr (h.prepare_ne_nil hs hm hk)
  simp only [given, List.length_take]
  omega

theorem Serves.advance (h : C.Serves data At) (hs : At k s) :
    At (k + (C.given m n s).length) (C.consume (C.given m n s).length s) :=
  h.consume hs (h.given_le hs)

end Cursor

end Framework
