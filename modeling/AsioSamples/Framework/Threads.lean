import Mathlib.Algebra.BigOperators.Group.Finset.Basic
import Mathlib.Algebra.Order.BigOperators.Group.Finset

/-!
# Sums over the threads of a system

Each thread of a finite family accounts for something, and one thread changes at a time.
-/

namespace Framework

variable {ι α M : Type*} [Fintype ι]

section Update

variable [DecidableEq ι] [AddCommMonoid M] (f : α → M) (threads : ι → α) (t : ι) (x : α)

/-- How a sum changes when one thread moves from `threads t` to `x`. -/
theorem sum_update_add :
    ∑ u, f (Function.update threads t x u) + f (threads t) = ∑ u, f (threads u) + f x := by
  have hx : f (Function.update threads t x t) = f x := by rw [Function.update_self]
  have hrest : ∑ u ∈ Finset.univ.erase t, f (Function.update threads t x u) =
      ∑ u ∈ Finset.univ.erase t, f (threads u) := by
    apply Finset.sum_congr rfl
    intro u hu
    rw [Function.update_of_ne (Finset.ne_of_mem_erase hu)]
  rw [← Finset.sum_erase_add _ _ (Finset.mem_univ t), hx, hrest, add_right_comm,
    Finset.sum_erase_add _ _ (Finset.mem_univ t)]

end Update

theorem exists_pos_of_sum_pos {f : ι → ℕ} (h : 0 < ∑ u, f u) : ∃ u, 0 < f u := by
  obtain ⟨u, -, hu⟩ := Finset.exists_ne_zero_of_sum_ne_zero (Nat.ne_of_gt h)
  exact ⟨u, Nat.pos_of_ne_zero hu⟩

theorem le_sum_threads (f : ι → ℕ) (u : ι) : f u ≤ ∑ v, f v :=
  Finset.single_le_sum (fun _ _ => Nat.zero_le _) (Finset.mem_univ u)

end Framework
