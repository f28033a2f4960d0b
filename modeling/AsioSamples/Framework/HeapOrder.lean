import Mathlib.Logic.Equiv.Basic
import Mathlib.Order.BoundedOrder.Basic
import Mathlib.Order.Lattice

/-!
# Heap order

A binary heap as the function from positions to keys, with `⊤` where the heap has ended. An
exchange with the parent or with the least child moves the only place where the order may be
broken one level up or down.
-/

namespace Framework

variable {α : Type*} [LinearOrder α] {f : ℕ → α} {i m n : ℕ}

def parent (i : ℕ) : ℕ := (i - 1) / 2

theorem parent_lt (hi : 0 < i) : parent i < i := by
  simp only [parent]
  omega

def HeapOrdered (f : ℕ → α) : Prop := ∀ j, 0 < j → f (parent j) ≤ f j

theorem HeapOrdered.head_le (h : HeapOrdered f) (j : ℕ) : f 0 ≤ f j := by
  induction j using Nat.strongRecOn with
  | ind j ih =>
      rcases Nat.eq_zero_or_pos j with rfl | hj
      · exact le_rfl
      · exact (ih (parent j) (parent_lt hj)).trans (h j hj)

/-- The order may be broken between `i` and its neighbours, but holds across `i`. -/
structure HeapOrderedOff (f : ℕ → α) (i : ℕ) : Prop where
  off : ∀ j, 0 < j → j ≠ i → parent j ≠ i → f (parent j) ≤ f j
  across : 0 < i → ∀ j, 0 < j → parent j = i → f (parent i) ≤ f j

def AboveChildren (f : ℕ → α) (i : ℕ) : Prop := ∀ j, 0 < j → parent j = i → f i ≤ f j

theorem HeapOrdered.update (h : HeapOrdered f) (i : ℕ) (x : α) :
    HeapOrderedOff (Function.update f i x) i := by
  constructor
  · intro j hj hji hp
    rw [Function.update_of_ne hji, Function.update_of_ne hp]
    exact h j hj
  · intro hi j hj hp
    have hne : j ≠ i := by
      have := parent_lt hj
      omega
    rw [Function.update_of_ne hne, Function.update_of_ne (Nat.ne_of_lt (parent_lt hi))]
    exact (h i hi).trans (hp ▸ h j hj)

/-- A heap without its last entry. -/
theorem HeapOrdered.drop [OrderTop α] (h : HeapOrdered f) (hn : ∀ j, n < j → f j = ⊤) :
    HeapOrdered (Function.update f n ⊤) := by
  intro j hj
  by_cases hjn : j = n
  · rw [hjn, Function.update_self]
    exact le_top
  · rw [Function.update_of_ne hjn]
    by_cases hp : parent j = n
    · have hlt := parent_lt hj
      rw [hn j (by omega)]
      exact le_top
    · rw [Function.update_of_ne hp]
      exact h j hj

theorem HeapOrderedOff.ordered (h : HeapOrderedOff f i) (hup : 0 < i → f (parent i) ≤ f i)
    (hdown : AboveChildren f i) : HeapOrdered f := by
  intro j hj
  by_cases hji : j = i
  · exact hji ▸ hup (hji ▸ hj)
  · by_cases hp : parent j = i
    · exact hp ▸ hdown j hj hp
    · exact h.off j hj hji hp

theorem HeapOrderedOff.swap_parent (h : HeapOrderedOff f i) (hi : 0 < i) :
    HeapOrderedOff (f ∘ Equiv.swap i (parent i)) (parent i) := by
  have hpi := parent_lt hi
  -- what stands at the parent now is not below anything that was under it
  have hgrand (hp : 0 < parent i) : f (parent (parent i)) ≤ f (parent i) := by
    have := parent_lt hp
    exact h.off _ hp (by omega) (by omega)
  constructor
  · intro j hj hji hp
    by_cases he : j = i
    · exact absurd (he ▸ rfl) hp
    · rw [Function.comp_apply, Function.comp_apply, Equiv.swap_apply_of_ne_of_ne he hji]
      by_cases hpj : parent j = i
      · rw [hpj, Equiv.swap_apply_left]
        exact h.across hi j hj hpj
      · rw [Equiv.swap_apply_of_ne_of_ne hpj hp]
        exact h.off j hj he hpj
  · intro hp j hj hpj
    have hne := parent_lt hp
    rw [Function.comp_apply, Function.comp_apply,
      Equiv.swap_apply_of_ne_of_ne (by omega) (by omega)]
    by_cases he : j = i
    · rw [he, Equiv.swap_apply_left]
      exact hgrand hp
    · have hjp : j ≠ parent i := by
        have := parent_lt hj
        omega
      rw [Equiv.swap_apply_of_ne_of_ne he hjp]
      exact (hgrand hp).trans (hpj ▸ h.off j hj he (by omega))

theorem HeapOrderedOff.swap_parent_above (h : HeapOrderedOff f i) (hi : 0 < i)
    (hlt : f i < f (parent i)) : AboveChildren (f ∘ Equiv.swap i (parent i)) (parent i) := by
  intro j hj hpj
  have hpi := parent_lt hi
  rw [Function.comp_apply, Function.comp_apply, Equiv.swap_apply_right]
  by_cases he : j = i
  · rw [he, Equiv.swap_apply_left]
    exact hlt.le
  · have hjp : j ≠ parent i := by
      have := parent_lt hj
      omega
    rw [Equiv.swap_apply_of_ne_of_ne he hjp]
    exact hlt.le.trans (hpj ▸ h.off j hj he (by omega))

/-- The exchange with the least child. -/
theorem HeapOrderedOff.swap_child (h : HeapOrderedOff f i) (hup : 0 < i → f (parent i) ≤ f i)
    (hm : 0 < m) (hpm : parent m = i) (hmin : ∀ j, 0 < j → parent j = i → f m ≤ f j)
    (hle : f m ≤ f i) : HeapOrderedOff (f ∘ Equiv.swap i m) m := by
  have him : i < m := hpm ▸ parent_lt hm
  constructor
  · intro j hj hjm hp
    rw [Function.comp_apply, Function.comp_apply]
    by_cases he : j = i
    · subst he
      have := parent_lt hj
      rw [Equiv.swap_apply_left, Equiv.swap_apply_of_ne_of_ne (by omega) hp]
      exact h.across hj m hm hpm
    · rw [Equiv.swap_apply_of_ne_of_ne he hjm]
      by_cases hpj : parent j = i
      · rw [hpj, Equiv.swap_apply_left]
        exact hmin j hj hpj
      · rw [Equiv.swap_apply_of_ne_of_ne hpj hp]
        exact h.off j hj he hpj
  · intro _ j hj hpj
    have hjm := parent_lt hj
    rw [Function.comp_apply, Function.comp_apply, hpm, Equiv.swap_apply_left,
      Equiv.swap_apply_of_ne_of_ne (by omega) (by omega)]
    exact hpj ▸ h.off j hj (by omega) (by omega)

end Framework
