import AsioSamples.Asio.TimerStore

/-!
# The operations of the timer queue

One lemma for each operation: what it does to the outstanding waits, and which of them it hands
out. Ready timers leave in the order of their expiries, and the waits on one timer in the order
of their coming.
-/

namespace AsioSamples.Asio

open Framework

namespace Pending

variable {T τ ω : Type}

def expiry (p : Pending T τ ω) (t : τ) : Option T := (p t).map Prod.fst

def waits (p : Pending T τ ω) (t : τ) : List ω := ((p t).map Prod.snd).getD []

variable [DecidableEq τ] {p : Pending T τ ω} {t : τ}

theorem expiry_update (v : Option (T × List ω)) :
    expiry (Function.update p t v) = Function.update p.expiry t (v.map Prod.fst) := by
  funext u
  simp only [expiry, Function.update_apply]
  split <;> rfl

theorem waits_update (v : Option (T × List ω)) :
    waits (Function.update p t v) = Function.update p.waits t ((v.map Prod.snd).getD []) := by
  funext u
  simp only [waits, Function.update_apply]
  split <;> rfl

theorem clear_expiry : (p.clear t).expiry = Function.update p.expiry t none := expiry_update none

theorem clear_waits : (p.clear t).waits = Function.update p.waits t [] := waits_update none

theorem clear_of_none (ht : p t = none) : p.clear t = p := Function.update_eq_self_iff.mpr ht.symm

omit [DecidableEq τ] in
theorem expiry_eq_none : p.expiry t = none ↔ p t = none := by
  simp [expiry]

omit [DecidableEq τ] in
theorem expiry_of_some {w : T × List ω} (ht : p t = some w) : p.expiry t = some w.1 := by
  rw [expiry, ht, Option.map_some]

omit [DecidableEq τ] in
theorem waits_of_some {w : T × List ω} (ht : p t = some w) : p.waits t = w.2 := by
  rw [waits, ht]
  rfl

theorem clear_waits_sublist (p : Pending T τ ω) (t u : τ) :
    ((p.clear t).waits u).Sublist (p.waits u) := by
  rw [clear_waits, Function.update_apply]
  split
  · exact List.nil_sublist _
  · exact .refl _

theorem keep_waits_sublist {ops : List ω} (h : ops.Sublist (p.waits t)) (u : τ) :
    ((p.keep t ops).waits u).Sublist (p.waits u) := by
  rw [keep]
  split
  · exact clear_waits_sublist p t u
  · rw [waits_update, Function.update_apply]
    split
    · rename_i hut
      rw [hut]
      cases hp : p t with
      | none => exact List.nil_sublist _
      | some v => exact h
    · exact .refl _

end Pending

namespace TimerQueue

variable {T τ ω κ : Type} [DecidableEq τ] [LinearOrder T] {q r : TimerQueue T τ ω}
variable {x : τ → Option T} {p : Pending T τ ω} {s t : τ} {time : T} {op : ω}

/-- The queue holds the outstanding waits `p`. -/
structure Stores (q : TimerQueue T τ ω) (p : Pending T τ ω) : Prop where
  heaped : Heaped q p.expiry
  listed : Listed q p.expiry
  queued : q.opQueue = p.waits
  nonempty : ∀ t e ops, p t = some (e, ops) → ops ≠ []

theorem stores_empty : Stores ({} : TimerQueue T τ ω) fun _ => none where
  heaped := ⟨by simp [Backed], by simp [Pending.expiry], by simp [HeapOrdered, key], by simp⟩
  listed := ⟨[], Links.represents_nil, by simp [Pending.expiry]⟩
  queued := rfl
  nonempty := by simp

omit [LinearOrder T] in
theorem Listed.active_iff (h : Listed q x) : q.Active t ↔ x t ≠ none := by
  obtain ⟨l, hl, hmem⟩ := h
  rw [← hmem, hl.mem_iff, Active]

omit [LinearOrder T] in
theorem Listed.pushFront (h : Listed q x) (ht : x t = none)
    (hlinks : r.links = q.links.pushFront t) : Listed r (Function.update x t (some time)) := by
  obtain ⟨l, hl, hmem⟩ := h
  have hnot : t ∉ l := fun hin => (hmem t).mp hin ht
  refine ⟨t :: l, hlinks ▸ hl.pushFront hnot, fun u => ?_⟩
  by_cases hu : u = t
  · simp [hu]
  · simp [hu, hmem]

omit [LinearOrder T] in
theorem Listed.remove (h : Listed q x) (ht : x t ≠ none) (hlinks : r.links = q.links.remove t) :
    Listed r (Function.update x t none) := by
  obtain ⟨l, hl, hmem⟩ := h
  obtain ⟨a, b, rfl⟩ := List.append_of_mem ((hmem t).mpr ht)
  refine ⟨a ++ b, hlinks ▸ hl.remove, fun u => ?_⟩
  have hnot := (List.nodup_middle.mp hl.nodup).notMem
  by_cases hu : u = t
  · simpa [hu] using hnot
  · rw [Function.update_of_ne hu, ← hmem]
    simp [hu]

theorem activate_rearranged (time : T) (t : τ) (q : TimerQueue T τ ω) :
    Rearranged (pushBack time t q)
      (upHeap ((pushBack time t q).heap.length - 1) (pushBack time t q)) := by
  apply upHeap_rearranged
  rw [pushBack_length]
  omega

theorem activate_opQueue (time : T) (t : τ) (q : TimerQueue T τ ω) :
    (activate time t q).opQueue = q.opQueue := (activate_rearranged time t q).opQueue

theorem activate_stores (h : Stores q p) (ht : p t = none) (op : ω) :
    Stores { activate time t q with
        opQueue := Function.update (activate time t q).opQueue t [op] }
      (Function.update p t (some (time, [op]))) := by
  have hnone : p.expiry t = none := Pending.expiry_eq_none.mpr ht
  have hup : Heaped (upHeap q.heap.length (pushBack time t q)) _ :=
    upHeap_pushBack_heaped h.heaped hnone
  rw [← Nat.add_sub_cancel (n := q.heap.length) (m := 1), ← pushBack_length time t q] at hup
  refine ⟨?_, ?_, ?_, ?_⟩
  · rw [Pending.expiry_update]
    exact ⟨hup.backed, hup.mem, hup.ordered, hup.idle⟩
  · rw [Pending.expiry_update]
    exact h.listed.pushFront hnone
      (congrArg (Links.pushFront t) (activate_rearranged time t q).links)
  · rw [Pending.waits_update, ← h.queued, activate_opQueue]
    rfl
  · intro u e ops hu
    by_cases hut : u = t
    · rw [hut, Function.update_self] at hu
      cases hu
      exact List.cons_ne_nil _ _
    · rw [Function.update_of_ne hut] at hu
      exact h.nonempty u e ops hu

theorem removeTimer_heaped (h : Heaped q x) (ht : x t = some time) :
    Heaped (removeTimer t q) (Function.update x t none) := by
  have hr := (removeFromHeap_heaped h ht).1
  exact ⟨hr.backed, hr.mem, hr.ordered, hr.idle⟩

/-- A timer without waits leaves the queue. -/
theorem removeTimer_stores {ops : List ω} (h : Stores q p) (ht : p t = some (time, ops)) :
    Stores (removeTimer t { q with opQueue := Function.update q.opQueue t [] }) (p.clear t) := by
  have hx : p.expiry t = some time := Pending.expiry_of_some ht
  have hheap : Heaped { q with opQueue := Function.update q.opQueue t [] } p.expiry :=
    ⟨h.heaped.backed, h.heaped.mem, h.heaped.ordered, h.heaped.idle⟩
  obtain ⟨-, hlinks, hqueue⟩ := removeFromHeap_heaped hheap hx
  refine ⟨?_, ?_, ?_, ?_⟩
  · rw [Pending.clear_expiry]
    exact removeTimer_heaped hheap hx
  · rw [Pending.clear_expiry]
    exact h.listed.remove (by simp [hx]) (congrArg (Links.remove t) hlinks)
  · rw [Pending.clear_waits, ← h.queued]
    exact hqueue
  · intro u e ops hu
    by_cases hut : u = t
    · rw [hut, Pending.clear, Function.update_self] at hu
      cases hu
    · rw [Pending.clear, Function.update_of_ne hut] at hu
      exact h.nonempty u e ops hu

/-- After the waits on a timer were changed to `ops`. -/
theorem keep_stores (h : Stores q p) (ht : p t ≠ none) (ops : List ω) :
    Stores (if Function.update q.opQueue t ops t = [] then
        removeTimer t { q with opQueue := Function.update q.opQueue t ops }
      else { q with opQueue := Function.update q.opQueue t ops }) (p.keep t ops) := by
  obtain ⟨⟨e, old⟩, ht⟩ := Option.ne_none_iff_exists'.mp ht
  rw [Function.update_self, Pending.keep]
  split
  · rename_i hops
    rw [hops]
    exact removeTimer_stores h ht
  · rename_i hops
    have hx : Function.update p.expiry t (some e) = p.expiry := by
      rw [Function.update_eq_self_iff, Pending.expiry_of_some ht]
    rw [ht, Option.map_some]
    refine ⟨?_, ?_, ?_, ?_⟩
    · rw [Pending.expiry_update, Option.map_some, hx]
      exact ⟨h.heaped.backed, h.heaped.mem, h.heaped.ordered, h.heaped.idle⟩
    · rw [Pending.expiry_update, Option.map_some, hx]
      exact h.listed
    · rw [Pending.waits_update, ← h.queued]
      rfl
    · intro u e' ops' hu
      by_cases hut : u = t
      · rw [hut, Function.update_self] at hu
        cases hu
        exact hops
      · rw [Function.update_of_ne hut] at hu
        exact h.nonempty u e' ops' hu

theorem Stores.active_iff (h : Stores q p) : q.Active t ↔ p t ≠ none := by
  rw [h.listed.active_iff, Ne, Pending.expiry_eq_none]

theorem Stores.waits_of_none (h : Stores q p) (ht : p t = none) : q.opQueue t = [] := by
  rw [h.queued, Pending.waits, ht]
  rfl

section Enqueue

variable [DecidableEq ω]

theorem enqueueTimer_stores (h : Stores q p) (time : T) (t : τ) (op : ω) :
    Stores (enqueueTimer time t op q).2 (p.schedule time t op) := by
  cases ht : p t with
  | none =>
      have hact : ¬ q.Active t := fun ha => h.active_iff.mp ha ht
      have hqueue : (activate time t q).opQueue t = [] := by
        rw [activate_opQueue, h.waits_of_none ht]
      simp only [enqueueTimer, if_neg hact, hqueue, List.nil_append, Pending.schedule, ht]
      exact activate_stores h ht op
  | some w =>
      have hact : q.Active t := h.active_iff.mpr (by simp [ht])
      have hops : q.opQueue t ++ [op] ≠ [] := by simp
      have hkeep := keep_stores h (by simp [ht] : p t ≠ none) (q.opQueue t ++ [op])
      rw [Function.update_self, if_neg hops, Pending.keep, if_neg hops, ht] at hkeep
      have hwaits : q.opQueue t = w.2 := by rw [h.queued, Pending.waits_of_some ht]
      simp only [enqueueTimer, if_pos hact, Pending.schedule, ht]
      rw [Option.map_some, hwaits] at hkeep
      rwa [hwaits]

/-- Where the caller is not told to wake up earlier, an earlier wait is outstanding. -/
theorem enqueueTimer_not_earliest (h : Stores q p) (ht : p t = none)
    (hfalse : (enqueueTimer time t op q).1 = false) :
    ∃ s e, p.expiry s = some e ∧ e ≤ time := by
  have hact : ¬ q.Active t := fun ha => h.active_iff.mp ha ht
  have hstores := (enqueueTimer_stores h time t op).heaped
  have hnew : (p.schedule time t op).expiry = Function.update p.expiry t (some time) := by
    rw [Pending.schedule, Pending.expiry_update, ht]
    rfl
  rw [hnew] at hstores
  obtain ⟨i, hi, hindex⟩ := hstores.getElem? (Function.update_self t (some time) p.expiry)
  -- the wait is the first one of its timer, so the timer is not the first one of the heap
  have hi0 : i ≠ 0 := by
    rintro rfl
    have hops : (activate time t q).opQueue t = [] := by
      rw [activate_opQueue, h.waits_of_none ht]
    simp only [enqueueTimer, if_neg hact, hops] at hfalse hindex
    simp [hindex] at hfalse
  obtain ⟨hlt, -⟩ := List.getElem?_eq_some_iff.mp hi
  have h0 := List.getElem?_eq_getElem (show 0 < (enqueueTimer time t op q).2.heap.length by omega)
  generalize (enqueueTimer time t op q).2.heap[0] = first at h0
  have hmem := (hstores.mem first).mp (List.mem_of_getElem? h0)
  have hne : first.timer ≠ t := by
    intro he
    have := (he ▸ hstores.backed 0 first h0).symm.trans hindex
    exact hi0 (Option.some.inj this).symm
  rw [Function.update_of_ne hne] at hmem
  have hle := hstores.ordered.head_le i
  rw [key_of_getElem? h0, key_of_getElem? hi, WithTop.coe_le_coe] at hle
  exact ⟨first.timer, first.time, hmem, hle⟩

end Enqueue

section Cancel

theorem cancelTimer_stores (h : Stores q p) (t : τ) (maxCancelled : Option ℕ) :
    let n := maxCancelled.getD (p.waits t).length
    (cancelTimer t maxCancelled q).1 =
        ((p.waits t).take n).map (fun op => (op, .operationAborted)) ∧
      Stores (cancelTimer t maxCancelled q).2 (p.keep t ((p.waits t).drop n)) := by
  by_cases ht : p t = none
  · have hact : ¬ q.Active t := fun ha => h.active_iff.mp ha ht
    have hwaits : p.waits t = [] := by rw [← h.queued, h.waits_of_none ht]
    simpa [cancelTimer, hact, hwaits, Pending.keep, Pending.clear_of_none ht] using h
  · have hact : q.Active t := h.active_iff.mpr ht
    simp only [cancelTimer, if_pos hact, h.queued, true_and]
    rw [← h.queued]
    exact keep_stores h ht _

theorem cancelTimerByKey_stores [DecidableEq κ] (h : Stores q p) (cancellationKey : ω → κ) (t : τ)
    (k : κ) : (cancelTimerByKey cancellationKey t k q).1 =
        ((p.waits t).filter fun op => cancellationKey op = k).map
          (fun op => (op, .operationAborted)) ∧
      Stores (cancelTimerByKey cancellationKey t k q).2
        (p.keep t ((p.waits t).filter fun op => cancellationKey op ≠ k)) := by
  by_cases ht : p t = none
  · have hact : ¬ q.Active t := fun ha => h.active_iff.mp ha ht
    have hwaits : p.waits t = [] := by rw [← h.queued, h.waits_of_none ht]
    simpa [cancelTimerByKey, hact, hwaits, Pending.keep, Pending.clear_of_none ht] using h
  · have hact : q.Active t := h.active_iff.mpr ht
    simp only [cancelTimerByKey, if_pos hact, h.queued, true_and]
    rw [← h.queued]
    exact keep_stores h ht _

end Cancel

section Move

omit [LinearOrder T] in
/-- The entry of the moved timer stays where it is and points to the new timer. -/
theorem moveTimer_getElem? {i k : ℕ} (ht : q.heapIndex t = some i) (hst : s ≠ t) :
    (moveTimer s t q).heap[k]? =
      if k = i then (q.heap[k]?).map fun entry => { entry with timer := s } else q.heap[k]? := by
  have hindex : Function.update (Function.update q.heapIndex s (q.heapIndex t)) t none s =
      some i := by
    rw [Function.update_of_ne hst, Function.update_self, ht]
  simp only [moveTimer, hindex, List.getElem?_modify, eq_comm (a := i)]
  split <;> simp

omit [LinearOrder T] in
theorem moveTimer_heapIndex (u : τ) : (moveTimer s t q).heapIndex u =
    if u = t then none else if u = s then q.heapIndex t else q.heapIndex u := by
  simp only [moveTimer, Function.update_apply]

theorem moveTimer_heaped (h : Heaped q x) (hs : x s = none) (ht : x t = some time) :
    Heaped (moveTimer s t q) (Function.update (Function.update x s (x t)) t none) := by
  obtain ⟨i, hi, hindex⟩ := h.getElem? ht
  have hst : s ≠ t := by
    rintro rfl
    rw [hs] at ht
    cases ht
  have hget := fun k => moveTimer_getElem? (k := k) hindex hst
  have hother {k : ℕ} {entry : HeapEntry T τ} (hk : q.heap[k]? = some entry) (hki : k ≠ i) :
      entry.timer ≠ t ∧ entry.timer ≠ s := by
    constructor
    · intro he
      exact hki (Option.some.inj ((h.backed k entry hk).symm.trans (he ▸ hindex)))
    · intro he
      have := (h.mem entry).mp (List.mem_of_getElem? hk)
      rw [he, hs] at this
      cases this
  constructor
  · intro k entry hk
    rw [hget] at hk
    rw [moveTimer_heapIndex]
    by_cases hki : k = i
    · rw [if_pos hki, hki, hi, Option.map_some, Option.some.injEq] at hk
      rw [← hk, if_neg hst, if_pos rfl, hindex, hki]
    · rw [if_neg hki] at hk
      obtain ⟨hnt, hns⟩ := hother hk hki
      rw [if_neg hnt, if_neg hns, h.backed k entry hk]
  · intro entry
    simp only [List.mem_iff_getElem?, hget, Function.update_apply]
    constructor
    · rintro ⟨k, hk⟩
      by_cases hki : k = i
      · rw [if_pos hki, hki, hi, Option.map_some, Option.some.injEq] at hk
        rw [← hk, if_neg hst, if_pos rfl, ht]
      · rw [if_neg hki] at hk
        obtain ⟨hnt, hns⟩ := hother hk hki
        rw [if_neg hnt, if_neg hns]
        exact (h.mem entry).mp (List.mem_of_getElem? hk)
    · intro he
      by_cases hnt : entry.timer = t
      · rw [if_pos hnt] at he
        cases he
      · by_cases hns : entry.timer = s
        · rw [if_neg hnt, if_pos hns, ht, Option.some.injEq] at he
          refine ⟨i, ?_⟩
          rw [if_pos rfl, hi, Option.map_some, he, ← hns]
        · rw [if_neg hnt, if_neg hns] at he
          obtain ⟨k, hk⟩ := List.mem_iff_getElem?.mp ((h.mem entry).mpr he)
          have hki : k ≠ i := by
            rintro rfl
            rw [hi, Option.some.injEq] at hk
            exact hnt (by rw [← hk])
          exact ⟨k, by rw [if_neg hki, hk]⟩
  · have hkey : (moveTimer s t q).key = q.key := by
      funext k
      rw [key, key, hget]
      by_cases hki : k = i
      · rw [if_pos hki, hki, hi]
        rfl
      · rw [if_neg hki]
    exact hkey ▸ h.ordered
  · intro u hu
    rw [moveTimer_heapIndex]
    by_cases hut : u = t
    · rw [if_pos hut]
    · rw [Function.update_of_ne hut] at hu
      by_cases hus : u = s
      · rw [hus, Function.update_self, ht] at hu
        cases hu
      · rw [Function.update_of_ne hus] at hu
        rw [if_neg hut, if_neg hus, h.idle u hu]

omit [LinearOrder T] in
theorem Listed.replace (h : Listed q x) (hs : x s = none) (ht : x t ≠ none)
    (hlinks : r.links = q.links.replace s t) :
    Listed r (Function.update (Function.update x s (x t)) t none) := by
  obtain ⟨l, hl, hmem⟩ := h
  obtain ⟨a, b, rfl⟩ := List.append_of_mem ((hmem t).mpr ht)
  have hnot : s ∉ a ++ t :: b := fun hin => (hmem s).mp hin hs
  refine ⟨a ++ s :: b, hlinks ▸ hl.replace hnot, fun u => ?_⟩
  have htab := (List.nodup_middle.mp hl.nodup).notMem
  have hst : s ≠ t := fun he => ht (he ▸ hs)
  by_cases hut : u = t
  · simp only [List.mem_append, not_or] at htab
    simp [hut, Ne.symm hst, htab]
  · rw [Function.update_of_ne hut]
    by_cases hus : u = s
    · simp [hus, ht]
    · rw [Function.update_of_ne hus, ← hmem]
      simp [hut, hus]

/-- The waits on `t` go over to `s`, on which nobody waits. -/
theorem moveTimer_stores (h : Stores q p) (hs : p s = none) (t : τ) :
    Stores (moveTimer s t q) (p.move s t) := by
  have hqueue : (moveTimer s t q).opQueue = (p.move s t).waits := by
    simp only [moveTimer, Pending.move, Pending.clear_waits, Pending.waits_update,
      h.waits_of_none hs, List.nil_append, h.queued]
    rfl
  have hx : (p.move s t).expiry =
      Function.update (Function.update p.expiry s (p.expiry t)) t none := by
    simp only [Pending.move, Pending.clear_expiry, Pending.expiry_update]
    rfl
  have hs' := Pending.expiry_eq_none.mpr hs
  cases ht : p t with
  | none =>
      have ht' := Pending.expiry_eq_none.mpr ht
      have hmove : p.move s t = p := by
        have hsame : Function.update p s none = p := Pending.clear_of_none hs
        rw [Pending.move, ht, hsame, Pending.clear_of_none ht]
      rw [hmove] at hqueue ⊢
      have hidle := h.heaped.idle t ht'
      have hindex : (moveTimer s t q).heapIndex = q.heapIndex := by
        funext u
        rw [moveTimer_heapIndex, hidle]
        split
        · rw [‹u = t›, hidle]
        · split
          · rw [‹u = s›, h.heaped.idle s hs']
          · rfl
      have hheap : (moveTimer s t q).heap = q.heap := by
        simp [moveTimer, Function.update_apply, hidle]
      refine ⟨⟨?_, ?_, ?_, ?_⟩, ?_, hqueue, h.nonempty⟩
      · intro k entry hk
        rw [hheap] at hk
        rw [hindex, h.heaped.backed k entry hk]
      · intro entry
        rw [hheap, h.heaped.mem]
      · have hkey : (moveTimer s t q).key = q.key := by
          funext k
          rw [key, key, hheap]
        exact hkey ▸ h.heaped.ordered
      · intro u hu
        rw [hindex, h.heaped.idle u hu]
      · obtain ⟨l, hl, hmem⟩ := h.listed
        exact ⟨l, hl.replace_of_notMem (fun hin => (hmem s).mp hin hs')
          (fun hin => (hmem t).mp hin ht'), hmem⟩
  | some w =>
      have ht' := Pending.expiry_of_some ht
      refine ⟨?_, ?_, hqueue, ?_⟩
      · rw [hx]
        exact moveTimer_heaped h.heaped hs' ht'
      · rw [hx]
        exact h.listed.replace hs' (by simp [ht']) rfl
      · intro u e ops hu
        by_cases hut : u = t
        · rw [hut, Pending.move, Pending.clear, Function.update_self] at hu
          cases hu
        · rw [Pending.move, Pending.clear, Function.update_of_ne hut] at hu
          by_cases hus : u = s
          · rw [hus, Function.update_self] at hu
            exact h.nonempty t e ops hu
          · rw [Function.update_of_ne hus] at hu
            exact h.nonempty u e ops hu

end Move

end TimerQueue

end AsioSamples.Asio
