import AsioSamples.Asio.TimerHeap

/-!
# What the timer queue stores

Seen from outside the queue is a map: each timer that somebody waits on has an expiry and its
waits in the order of their coming. The operations of the queue are operations on this map, and
its pointers, indices and heap stay consistent with it.
-/

namespace AsioSamples.Asio

/-- The outstanding waits, and when they end. -/
abbrev Pending (T τ ω : Type) : Type := τ → Option (T × List ω)

namespace Pending

variable {T τ ω : Type} [DecidableEq τ]

/-- A wait is added. The expiry is that of the first wait. -/
def schedule (time : T) (timer : τ) (op : ω) (p : Pending T τ ω) : Pending T τ ω :=
  Function.update p timer <| some <|
    match p timer with
    | none => (time, [op])
    | some (expiry, ops) => (expiry, ops ++ [op])

def clear (timer : τ) (p : Pending T τ ω) : Pending T τ ω := Function.update p timer none

/-- Of the waits on a timer those of `ops` are left. -/
def keep (timer : τ) (ops : List ω) (p : Pending T τ ω) : Pending T τ ω :=
  if ops = [] then p.clear timer
  else Function.update p timer ((p timer).map fun w => (w.1, ops))

def move (target source : τ) (p : Pending T τ ω) : Pending T τ ω :=
  clear source (Function.update p target (p source))

end Pending

namespace TimerQueue

open Framework

variable {T τ ω κ : Type} [DecidableEq τ] {q r : TimerQueue T τ ω}
variable {x : τ → Option T} {p : Pending T τ ω} {t : τ} {time : T}

section Ends

theorem pushBack_heapIndex (u : τ) : (pushBack time t q).heapIndex u =
    if u = t then some q.heap.length else q.heapIndex u := by
  simp only [pushBack, Function.update_apply]

theorem pushBack_length (time : T) (t : τ) (q : TimerQueue T τ ω) :
    (pushBack time t q).heap.length = q.heap.length + 1 := by
  rw [pushBack, List.length_append, List.length_singleton]

theorem pushBack_key (time : T) (t : τ) (q : TimerQueue T τ ω) :
    (pushBack time t q).key = Function.update q.key q.heap.length time := by
  funext k
  rcases Nat.lt_trichotomy k q.heap.length with hk | rfl | hk
  · rw [Function.update_of_ne hk.ne, key, key, pushBack, List.getElem?_append_left hk]
  · rw [Function.update_self, key, pushBack, List.getElem?_concat_length]
  · rw [Function.update_of_ne hk.ne', key_eq_top hk.le, key_eq_top]
    rw [pushBack_length]
    exact hk

theorem pushBack_backed (h : Backed q) (hout : ∀ entry ∈ q.heap, entry.timer ≠ t) :
    Backed (pushBack time t q) := by
  intro k entry hk
  rw [pushBack_heapIndex]
  rw [pushBack] at hk
  rcases Nat.lt_or_ge k q.heap.length with hlt | hge
  · rw [List.getElem?_append_left hlt] at hk
    rw [if_neg (hout entry (List.mem_of_getElem? hk)), h k entry hk]
  · obtain ⟨hlt, -⟩ := List.getElem?_eq_some_iff.mp hk
    obtain rfl : k = q.heap.length := by
      rw [List.length_append, List.length_singleton] at hlt
      omega
    rw [List.getElem?_concat_length, Option.some.injEq] at hk
    rw [← hk, if_pos rfl]

theorem popBack_heapIndex (u : τ) :
    (popBack t q).heapIndex u = if u = t then none else q.heapIndex u := by
  simp only [popBack, Function.update_apply]

theorem popBack_key (t : τ) (q : TimerQueue T τ ω) :
    (popBack t q).key = Function.update q.key (q.heap.length - 1) ⊤ := by
  funext k
  rcases Nat.lt_or_ge k (q.heap.length - 1) with hk | hk
  · rw [Function.update_of_ne hk.ne, key, key, popBack, List.getElem?_dropLast, if_pos hk]
  · rw [key_eq_top (by simpa [popBack] using hk)]
    by_cases he : k = q.heap.length - 1
    · rw [he, Function.update_self]
    · rw [Function.update_of_ne he, key_eq_top (by omega)]

theorem popBack_getElem? {i : ℕ} {entry : HeapEntry T τ}
    (hi : (popBack t q).heap[i]? = some entry) :
    i < q.heap.length - 1 ∧ q.heap[i]? = some entry := by
  rw [popBack, List.getElem?_dropLast] at hi
  split at hi
  · exact ⟨‹_›, hi⟩
  · cases hi

theorem popBack_backed (h : Backed q) (hlast : q.heap[q.heap.length - 1]? = some ⟨time, t⟩) :
    Backed (popBack t q) := by
  intro k entry hk
  obtain ⟨hlt, hk⟩ := popBack_getElem? hk
  have hindex := h k entry hk
  have hne : entry.timer ≠ t := by
    intro he
    have := hindex.symm.trans (he ▸ h _ _ hlast)
    rw [Option.some.injEq] at this
    omega
  rw [popBack_heapIndex, if_neg hne, hindex]

theorem popBack_mem (h : Backed q) (hlast : q.heap[q.heap.length - 1]? = some ⟨time, t⟩)
    (entry : HeapEntry T τ) :
    entry ∈ (popBack t q).heap ↔ entry ∈ q.heap ∧ entry.timer ≠ t := by
  constructor
  · intro he
    obtain ⟨k, hk⟩ := List.mem_iff_getElem?.mp he
    refine ⟨List.mem_of_getElem? (popBack_getElem? hk).2, ?_⟩
    rintro rfl
    have := popBack_backed h hlast k entry hk
    rw [popBack_heapIndex, if_pos rfl] at this
    cases this
  · rintro ⟨he, hne⟩
    obtain ⟨k, hk⟩ := List.mem_iff_getElem?.mp he
    obtain ⟨hlt, -⟩ := List.getElem?_eq_some_iff.mp hk
    have hkn : k ≠ q.heap.length - 1 := by
      rintro rfl
      rw [hlast, Option.some.injEq] at hk
      exact hne (by rw [← hk])
    apply List.mem_of_getElem? (i := k)
    rw [popBack, List.getElem?_dropLast, if_pos (by omega), hk]

theorem popBack_idle (h : ∀ u, x u = none → q.heapIndex u = none) (u : τ)
    (hu : Function.update x t none u = none) : (popBack t q).heapIndex u = none := by
  by_cases hut : u = t
  · rw [popBack_heapIndex, if_pos hut]
  · rw [Function.update_of_ne hut] at hu
    rw [popBack_heapIndex, if_neg hut, h u hu]

end Ends

variable [LinearOrder T]

/-- The heap holds the timers with their expiries `x`. -/
structure Heaped (q : TimerQueue T τ ω) (x : τ → Option T) : Prop where
  backed : Backed q
  mem : ∀ entry : HeapEntry T τ, entry ∈ q.heap ↔ x entry.timer = some entry.time
  ordered : HeapOrdered q.key
  idle : ∀ t, x t = none → q.heapIndex t = none

/-- The linked list holds the timers that have an expiry. -/
def Listed (q : TimerQueue T τ ω) (x : τ → Option T) : Prop :=
  ∃ l, q.links.Represents l ∧ ∀ t, t ∈ l ↔ x t ≠ none

omit [DecidableEq τ] in
theorem Heaped.rearranged (h : Rearranged q r) (hq : Backed q)
    (hmem : ∀ entry : HeapEntry T τ, entry ∈ q.heap ↔ x entry.timer = some entry.time)
    (hidle : ∀ t, x t = none → q.heapIndex t = none) (hr : HeapOrdered r.key) : Heaped r x where
  backed := h.backed hq
  mem entry := h.heap.mem_iff.trans (hmem entry)
  ordered := hr
  idle t ht := by
    rw [h.outside t, hidle t ht]
    rintro entry he rfl
    rw [(hmem entry).mp he] at ht
    cases ht

omit [DecidableEq τ] in
theorem Heaped.getElem? (h : Heaped q x) (ht : x t = some time) :
    ∃ i, q.heap[i]? = some ⟨time, t⟩ ∧ q.heapIndex t = some i := by
  obtain ⟨i, hi⟩ := List.mem_iff_getElem?.mp ((h.mem ⟨time, t⟩).mpr ht)
  exact ⟨i, hi, h.backed i _ hi⟩

theorem pushBack_mem (h : Heaped q x) (ht : x t = none) (entry : HeapEntry T τ) :
    entry ∈ (pushBack time t q).heap ↔
      Function.update x t (some time) entry.timer = some entry.time := by
  rw [pushBack, List.mem_append, List.mem_singleton, h.mem]
  by_cases he : entry.timer = t
  · rw [he, Function.update_self, ht, Option.some.injEq]
    constructor
    · rintro (hn | rfl)
      · cases hn
      · rfl
    · rintro rfl
      exact .inr (by rw [← he])
  · rw [Function.update_of_ne he]
    exact or_iff_left fun hn => he (by rw [hn])

theorem upHeap_pushBack_heaped (h : Heaped q x) (ht : x t = none) :
    Heaped (upHeap q.heap.length (pushBack time t q)) (Function.update x t (some time)) := by
  have hout : ∀ entry ∈ q.heap, entry.timer ≠ t := by
    rintro entry he rfl
    rw [(h.mem entry).mp he] at ht
    cases ht
  have hoff : HeapOrderedOff (pushBack time t q).key q.heap.length :=
    pushBack_key time t q ▸ h.ordered.update _ _
  have habove : AboveChildren (pushBack time t q).key q.heap.length := by
    intro j hj hp
    have hlt := parent_lt hj
    rw [key_eq_top (i := j) (by rw [pushBack_length]; omega)]
    exact le_top
  have hlen : q.heap.length < (pushBack time t q).heap.length := by
    rw [pushBack_length]
    exact Nat.lt_succ_self _
  refine .rearranged (upHeap_rearranged hlen) (pushBack_backed h.backed hout)
    (pushBack_mem h ht) ?_ (upHeap_ordered hlen hoff habove)
  intro u hu
  by_cases hut : u = t
  · rw [hut, Function.update_self] at hu
    cases hu
  · rw [Function.update_of_ne hut] at hu
    rw [pushBack_heapIndex, if_neg hut, h.idle u hu]

theorem removeFromHeap_heaped (h : Heaped q x) (ht : x t = some time) :
    Heaped (removeFromHeap t q) (Function.update x t none) ∧
      (removeFromHeap t q).links = q.links ∧ (removeFromHeap t q).opQueue = q.opQueue := by
  obtain ⟨i, hi, hindex⟩ := h.getElem? ht
  obtain ⟨hlt, -⟩ := List.getElem?_eq_some_iff.mp hi
  have hdrop : HeapOrdered (Function.update q.key (q.heap.length - 1) ⊤) :=
    h.ordered.drop fun j hj => key_eq_top (by omega)
  have hmem (entry : HeapEntry T τ) : (entry ∈ q.heap ∧ entry.timer ≠ t) ↔
      Function.update x t none entry.timer = some entry.time := by
    by_cases he : entry.timer = t
    · simp [he]
    · rw [Function.update_of_ne he, h.mem]
      exact and_iff_left he
  simp only [removeFromHeap, hindex, hlt, if_true]
  by_cases hlast : i = q.heap.length - 1
  · subst hlast
    rw [if_pos rfl]
    refine ⟨⟨popBack_backed h.backed hi, fun entry => ?_, ?_, popBack_idle h.idle⟩, rfl, rfl⟩
    · exact (popBack_mem h.backed hi entry).trans (hmem entry)
    · exact popBack_key t q ▸ hdrop
  · rw [if_neg hlast]
    have hend : q.heap.length - 1 < q.heap.length := by omega
    have hswap := swapHeap_rearranged hi (List.getElem?_eq_getElem hend)
    have hlen : (swapHeap i (q.heap.length - 1) q).heap.length = q.heap.length :=
      swapHeap_length _ _ _
    have hback := hswap.backed h.backed
    have hnow : (swapHeap i (q.heap.length - 1) q).heap[(swapHeap i (q.heap.length - 1)
        q).heap.length - 1]? = some ⟨time, t⟩ := by
      rw [hlen, swapHeap_getElem? hi (List.getElem?_eq_getElem hend), Equiv.swap_apply_right, hi]
    have hkey : (popBack t (swapHeap i (q.heap.length - 1) q)).key =
        Function.update (Function.update q.key (q.heap.length - 1) ⊤) i
          (q.key (q.heap.length - 1)) := by
      rw [popBack_key, hlen, swapHeap_key hi (List.getElem?_eq_getElem hend)]
      funext k
      simp only [Function.update_apply, Function.comp_apply]
      by_cases hki : k = i
      · simp [hki, hlast]
      · by_cases hkn : k = q.heap.length - 1
        · simp [hkn, Ne.symm hlast]
        · simp [hki, hkn, Equiv.swap_apply_of_ne_of_ne hki hkn]
    have hoff : HeapOrderedOff (popBack t (swapHeap i (q.heap.length - 1) q)).key i :=
      hkey ▸ hdrop.update i _
    have hmem' (entry : HeapEntry T τ) :
        entry ∈ (popBack t (swapHeap i (q.heap.length - 1) q)).heap ↔
          Function.update x t none entry.timer = some entry.time := by
      rw [popBack_mem hback hnow, hswap.heap.mem_iff]
      exact hmem entry
    have hidle := popBack_idle (t := t) fun u hu => (hswap.outside u (by
      rintro entry he rfl
      rw [(h.mem entry).mp he] at hu
      cases hu)).trans (h.idle u hu)
    have hi' : i < (popBack t (swapHeap i (q.heap.length - 1) q)).heap.length := by
      rw [popBack, List.length_dropLast, hlen]
      omega
    split
    · rename_i hup
      have habove : AboveChildren (popBack t (swapHeap i (q.heap.length - 1) q)).key i :=
        fun j hj hp => hup.2.le.trans (hoff.across hup.1 j hj hp)
      have hre := upHeap_rearranged hi'
      exact ⟨.rearranged hre (popBack_backed hback hnow) hmem' hidle
        (upHeap_ordered hi' hoff habove), hre.links.trans hswap.links,
        hre.opQueue.trans hswap.opQueue⟩
    · rename_i hnot
      have hre := downHeap_rearranged (q := popBack t (swapHeap i (q.heap.length - 1) q)) (i := i)
      refine ⟨.rearranged hre (popBack_backed hback hnow) hmem' hidle
        (downHeap_ordered hoff fun h0 => ?_), hre.links.trans hswap.links,
        hre.opQueue.trans hswap.opQueue⟩
      exact not_lt.mp fun hlt' => hnot ⟨h0, hlt'⟩

end TimerQueue

end AsioSamples.Asio
