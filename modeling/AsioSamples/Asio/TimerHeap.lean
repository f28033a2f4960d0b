import AsioSamples.Asio.TimerQueue
import Mathlib.Data.List.Nodup
import Mathlib.Data.List.Perm.Basic

/-!
# The heap of the timer queue

An exchange of two entries keeps the entries and their timers pointing at each other. So moving
an entry up or down rearranges the heap and nothing else, and brings it into order again.
-/

namespace AsioSamples.Asio.TimerQueue

open Framework

variable {T τ ω : Type} {q r : TimerQueue T τ ω} {i j : ℕ}

/-- Each entry's timer knows where the entry is. -/
def Backed (q : TimerQueue T τ ω) : Prop :=
  ∀ i entry, q.heap[i]? = some entry → q.heapIndex entry.timer = some i

/-- `r` is `q` with its heap in another order. -/
structure Rearranged (q r : TimerQueue T τ ω) : Prop where
  links : r.links = q.links
  opQueue : r.opQueue = q.opQueue
  heap : r.heap.Perm q.heap
  backed : Backed q → Backed r
  outside : ∀ t, (∀ entry ∈ q.heap, entry.timer ≠ t) → r.heapIndex t = q.heapIndex t

theorem Rearranged.refl (q : TimerQueue T τ ω) : Rearranged q q :=
  ⟨rfl, rfl, .refl _, id, fun _ _ => rfl⟩

theorem Rearranged.trans {p : TimerQueue T τ ω} (h : Rearranged p q) (h' : Rearranged q r) :
    Rearranged p r where
  links := h'.links.trans h.links
  opQueue := h'.opQueue.trans h.opQueue
  heap := h'.heap.trans h.heap
  backed := h'.backed ∘ h.backed
  outside t ht := (h'.outside t fun entry he => ht entry (h.heap.mem_iff.mp he)).trans
    (h.outside t ht)

theorem key_eq_top (hi : q.heap.length ≤ i) : q.key i = ⊤ := by
  rw [key, List.getElem?_eq_none hi]

theorem key_of_getElem? {entry : HeapEntry T τ} (hi : q.heap[i]? = some entry) :
    q.key i = entry.time := by
  rw [key, hi]

section Swap

variable [DecidableEq τ] {a b : HeapEntry T τ}

theorem swapHeap_getElem? (ha : q.heap[i]? = some a) (hb : q.heap[j]? = some b) (k : ℕ) :
    (swapHeap i j q).heap[k]? = q.heap[Equiv.swap i j k]? := by
  obtain ⟨hi, -⟩ := List.getElem?_eq_some_iff.mp ha
  obtain ⟨hj, -⟩ := List.getElem?_eq_some_iff.mp hb
  simp only [swapHeap, ha, hb, List.getElem?_set, List.length_set, hi, hj]
  by_cases hkj : k = j
  · subst hkj
    simp [ha]
  · by_cases hki : k = i
    · subst hki
      simp [hb, Ne.symm hkj]
    · simp [Equiv.swap_apply_of_ne_of_ne hki hkj, Ne.symm hkj, Ne.symm hki]

theorem swapHeap_key (ha : q.heap[i]? = some a) (hb : q.heap[j]? = some b) :
    (swapHeap i j q).key = q.key ∘ Equiv.swap i j := by
  funext k
  rw [Function.comp_apply, key, key, swapHeap_getElem? ha hb]

theorem swapHeap_heapIndex (ha : q.heap[i]? = some a) (hb : q.heap[j]? = some b) (t : τ) :
    (swapHeap i j q).heapIndex t =
      if t = a.timer then some j else if t = b.timer then some i else q.heapIndex t := by
  simp only [swapHeap, ha, hb, Function.update_apply]

theorem swapHeap_perm (ha : q.heap[i]? = some a) (hb : q.heap[j]? = some b) :
    (swapHeap i j q).heap.Perm q.heap := by
  obtain ⟨hi, rfl⟩ := List.getElem?_eq_some_iff.mp ha
  obtain ⟨hj, rfl⟩ := List.getElem?_eq_some_iff.mp hb
  simp only [swapHeap, ha, hb]
  exact List.set_set_perm hi hj

theorem swapHeap_rearranged (ha : q.heap[i]? = some a) (hb : q.heap[j]? = some b) :
    Rearranged q (swapHeap i j q) := by
  refine ⟨by simp [swapHeap, ha, hb], by simp [swapHeap, ha, hb], swapHeap_perm ha hb, ?_, ?_⟩
  · intro h k entry hk
    rw [swapHeap_getElem? ha hb] at hk
    have hentry := h _ _ hk
    have hai := h _ _ ha
    have hbj := h _ _ hb
    rw [swapHeap_heapIndex ha hb]
    by_cases hta : entry.timer = a.timer
    · rw [hta, hai, Option.some.injEq] at hentry
      rw [if_pos hta, Equiv.swap_apply_eq_iff.mp hentry.symm, Equiv.swap_apply_left]
    · by_cases htb : entry.timer = b.timer
      · rw [htb, hbj, Option.some.injEq] at hentry
        rw [if_neg hta, if_pos htb, Equiv.swap_apply_eq_iff.mp hentry.symm,
          Equiv.swap_apply_right]
      · have hki : k ≠ i := by
          rintro rfl
          rw [Equiv.swap_apply_left, hb] at hk
          exact htb (congrArg HeapEntry.timer (Option.some.inj hk.symm))
        have hkj : k ≠ j := by
          rintro rfl
          rw [Equiv.swap_apply_right, ha] at hk
          exact hta (congrArg HeapEntry.timer (Option.some.inj hk.symm))
        rw [if_neg hta, if_neg htb, hentry, Equiv.swap_apply_of_ne_of_ne hki hkj]
  · intro t ht
    rw [swapHeap_heapIndex ha hb, if_neg (ht a (List.mem_of_getElem? ha)).symm,
      if_neg (ht b (List.mem_of_getElem? hb)).symm]

end Swap

variable [LinearOrder T]

theorem minChild_spec (hi : i * 2 + 1 < q.heap.length) :
    parent (minChild i q) = i ∧ minChild i q < q.heap.length ∧ 0 < minChild i q ∧
      ∀ j, 0 < j → parent j = i → q.key (minChild i q) ≤ q.key j := by
  have hchild {j : ℕ} (h0 : 0 < j) (hj : parent j = i) : j = i * 2 + 1 ∨ j = i * 2 + 1 + 1 := by
    simp only [parent] at hj
    omega
  simp only [minChild]
  split
  · rename_i hor
    refine ⟨by simp only [parent]; omega, hi, by omega, fun j h0 hj => ?_⟩
    rcases hchild h0 hj with rfl | rfl
    · exact le_rfl
    · rcases hor with hlast | hlt
      · rw [key_eq_top hlast.ge]
        exact le_top
      · exact hlt.le
  · rename_i hor
    obtain ⟨hlast, hge⟩ := not_or.mp hor
    refine ⟨by simp only [parent]; omega, by omega, by omega, fun j h0 hj => ?_⟩
    rcases hchild h0 hj with rfl | rfl
    · exact not_lt.mp hge
    · exact le_rfl

variable [DecidableEq τ]

theorem upHeap_rearranged (hi : i < q.heap.length) : Rearranged q (upHeap i q) := by
  fun_induction upHeap i q with
  | case1 i q h0 hlt ih =>
      have ha := List.getElem?_eq_getElem hi
      have hb := List.getElem?_eq_getElem ((parent_lt h0).trans hi)
      refine (swapHeap_rearranged ha hb).trans (ih ?_)
      rw [swapHeap_length]
      exact (parent_lt h0).trans hi
  | case2 i q h0 hge => exact .refl q
  | case3 i q h0 => exact .refl q

/-- An entry that is too early for its place moves up. -/
theorem upHeap_ordered (hi : i < q.heap.length) (hoff : HeapOrderedOff q.key i)
    (habove : AboveChildren q.key i) : HeapOrdered (upHeap i q).key := by
  fun_induction upHeap i q with
  | case1 i q h0 hlt ih =>
      have ha := List.getElem?_eq_getElem hi
      have hb := List.getElem?_eq_getElem ((parent_lt h0).trans hi)
      apply ih
      · rw [swapHeap_length]
        exact (parent_lt h0).trans hi
      · rw [swapHeap_key ha hb]
        exact hoff.swap_parent h0
      · rw [swapHeap_key ha hb]
        exact hoff.swap_parent_above h0 hlt
  | case2 i q h0 hge => exact hoff.ordered (fun _ => not_lt.mp hge) habove
  | case3 i q h0 => exact hoff.ordered (fun h => absurd h h0) habove

theorem downHeap_rearranged : Rearranged q (downHeap i q) := by
  fun_induction downHeap i q with
  | case1 i q h hlt => exact .refl q
  | case2 i q h hge ih =>
      obtain ⟨-, hm, -⟩ := minChild_spec h
      have ha := List.getElem?_eq_getElem (show i < q.heap.length by omega)
      exact (swapHeap_rearranged ha (List.getElem?_eq_getElem hm)).trans ih
  | case3 i q h => exact .refl q

/-- An entry that is too late for its place moves down. -/
theorem downHeap_ordered (hoff : HeapOrderedOff q.key i)
    (hup : 0 < i → q.key (parent i) ≤ q.key i) : HeapOrdered (downHeap i q).key := by
  fun_induction downHeap i q with
  | case1 i q h hlt =>
      obtain ⟨-, -, -, hmin⟩ := minChild_spec h
      exact hoff.ordered hup fun j h0 hj => hlt.le.trans (hmin j h0 hj)
  | case2 i q h hge ih =>
      obtain ⟨hp, hm, h0, hmin⟩ := minChild_spec h
      have ha := List.getElem?_eq_getElem (show i < q.heap.length by omega)
      have hkey := swapHeap_key ha (List.getElem?_eq_getElem hm)
      apply ih
      · rw [hkey]
        exact hoff.swap_child hup h0 hp hmin (not_lt.mp hge)
      · intro _
        rw [hkey, hp, Function.comp_apply, Function.comp_apply, Equiv.swap_apply_left,
          Equiv.swap_apply_right]
        exact not_lt.mp hge
  | case3 i q h =>
      refine hoff.ordered hup fun j h0 hj => ?_
      have : q.heap.length ≤ j := by
        simp only [parent] at hj
        omega
      rw [key_eq_top this]
      exact le_top

end AsioSamples.Asio.TimerQueue
