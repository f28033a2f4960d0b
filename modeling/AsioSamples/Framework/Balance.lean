import Mathlib.Algebra.BigOperators.Group.Finset.Basic
import Mathlib.Algebra.Module.NatInt
import Mathlib.Algebra.Order.BigOperators.Group.Finset
import Mathlib.Algebra.Order.Group.Defs
import Mathlib.Algebra.Order.Monoid.NatCast
import Mathlib.Algebra.Order.Archimedean.Basic

/-!
# Advancing the earliest of several clocks

Clocks that lie within one period of each other still do after the earliest of them was
advanced by a period. So clocks that started less than a period apart were advanced almost
equally often, and numbers that are almost equal are the two roundings of their average.
-/

namespace Framework

section Window

variable {ι α : Type*} [AddCommGroup α] [LinearOrder α] [IsOrderedAddMonoid α]

/-- The clocks of `s` lie within a window of width `w`. -/
def Within (e : ι → α) (w : α) (s : Set ι) : Prop := ∀ a ∈ s, ∀ b ∈ s, e a ≤ e b + w

variable {e : ι → α} {w : α} {s : Set ι}

theorem Within.advance [DecidableEq ι] (h : Within e w s) (hw : 0 ≤ w) {k : ι} (hk : k ∈ s)
    (hmin : ∀ b ∈ s, e k ≤ e b) : Within (Function.update e k (e k + w)) w s := by
  intro a ha b hb
  by_cases hak : a = k
  · by_cases hbk : b = k
    · simpa [hak, hbk] using hw
    · simpa [hak, hbk] using hmin b hb
  · by_cases hbk : b = k
    · simp only [hbk, Function.update_self, Function.update_of_ne hak]
      exact (h a ha k hk).trans (le_add_of_nonneg_right hw)
    · simpa [hak, hbk] using h a ha b hb

/-- Clocks that started less than a period apart differ by at most one in their advances. -/
theorem Within.advances_le {p : ι → ℕ} {e₀ : ι → α} (h : Within e w s) (hw : 0 < w)
    (he : ∀ a ∈ s, e a = e₀ a + p a • w) (h₀ : ∀ a ∈ s, ∀ b ∈ s, e₀ a < e₀ b + w) {a b : ι}
    (ha : a ∈ s) (hb : b ∈ s) : p a ≤ p b + 1 := by
  have h1 : e₀ a + p a • w ≤ e₀ b + p b • w + w := by
    rw [← he a ha, ← he b hb]
    exact h a ha b hb
  have h2 : e₀ a + p a • w < e₀ a + (p b + 2) • w := by
    calc e₀ a + p a • w ≤ e₀ b + p b • w + w := h1
      _ < e₀ a + w + p b • w + w := by
        gcongr
        exact h₀ b hb a ha
      _ = e₀ a + (p b + 2) • w := by
        rw [add_nsmul, two_nsmul]
        abel
  have h3 : p a < p b + 2 := (nsmul_left_strictMono hw).lt_iff_lt.mp (lt_of_add_lt_add_left h2)
  omega

end Window

section Shares

variable {ι : Type*} {s : Finset ι} {p : ι → ℕ} {c : ℕ} {k : ι}

private theorem card_mul_lt_sum (hk : k ∈ s) (hle : ∀ a ∈ s, c ≤ p a) (hlt : c < p k) :
    s.card * c < ∑ a ∈ s, p a := by
  calc s.card * c = ∑ _a ∈ s, c := by rw [Finset.sum_const, smul_eq_mul]
    _ < ∑ a ∈ s, p a := Finset.sum_lt_sum hle ⟨k, hk, hlt⟩

private theorem sum_lt_card_mul (hk : k ∈ s) (hle : ∀ a ∈ s, p a ≤ c) (hlt : p k < c) :
    ∑ a ∈ s, p a < s.card * c := by
  calc ∑ a ∈ s, p a < ∑ _a ∈ s, c := Finset.sum_lt_sum hle ⟨k, hk, hlt⟩
    _ = s.card * c := by rw [Finset.sum_const, smul_eq_mul]

/-- Shares that differ by at most one are the average, rounded down or up. -/
theorem share_eq_floor_or_ceil (h : ∀ a ∈ s, ∀ b ∈ s, p a ≤ p b + 1) (hk : k ∈ s) :
    p k = (∑ a ∈ s, p a) / s.card ∨ p k = (∑ a ∈ s, p a + s.card - 1) / s.card := by
  by_cases hmin : ∀ a ∈ s, p k ≤ p a
  · left
    have hlower : s.card * p k ≤ ∑ a ∈ s, p a := by
      rw [← smul_eq_mul]
      exact Finset.card_nsmul_le_sum s p (p k) hmin
    have hupper := sum_lt_card_mul hk (fun a ha => h a ha k hk) (Nat.lt_succ_self (p k))
    exact (Nat.div_eq_of_lt_le (by rwa [Nat.mul_comm]) (by rwa [Nat.mul_comm])).symm
  · right
    push Not at hmin
    obtain ⟨b, hb, hlt⟩ := hmin
    -- some share is smaller, so this one is the largest
    obtain ⟨q, hq⟩ : ∃ q, p k = q + 1 := ⟨p k - 1, by omega⟩
    have hupper : ∑ a ∈ s, p a < s.card * (q + 1) :=
      sum_lt_card_mul hb (fun a ha => (h a ha b hb).trans (by omega)) (by omega)
    have hlower : s.card * q < ∑ a ∈ s, p a :=
      card_mul_lt_sum hk (fun a ha => by have := h k hk a ha; omega) (by omega)
    rw [hq]
    refine (Nat.div_eq_of_lt_le ?_ ?_).symm
    · rw [Nat.add_mul, Nat.one_mul, Nat.mul_comm]
      omega
    · rw [Nat.add_mul, Nat.one_mul, Nat.mul_comm]
      omega

end Shares

end Framework
