import AsioSamples.Asio.TimerOperations

/-!
# The waits that have ended

`get_ready_timers` takes timers from the heap until the first one lies in the future. So it
hands out all the waits that have ended, those of an earlier timer first. `get_all_timers` walks
along the list instead and hands out whatever is left.
-/

namespace AsioSamples.Asio

open Framework

namespace Pending

variable {T τ ω : Type} [LinearOrder T]

/-- What is outstanding after the waits until `now` have ended. -/
def after (now : T) (p : Pending T τ ω) : Pending T τ ω := fun t =>
  (p t).filter fun w => now < w.1

/-- The timers that have expired by `now`, the earliest first. -/
structure Due (now : T) (p : Pending T τ ω) (due : List (HeapEntry T τ)) : Prop where
  sorted : due.Pairwise fun a b => a.time ≤ b.time
  nodup : (due.map HeapEntry.timer).Nodup
  mem : ∀ entry, entry ∈ due ↔ p.expiry entry.timer = some entry.time ∧ entry.time ≤ now

variable {now : T} {p : Pending T τ ω}

theorem after_eq_self (h : ∀ t e ops, p t = some (e, ops) → now < e) : p.after now = p := by
  funext t
  cases ht : p t with
  | none => simp [after, ht]
  | some w => simp [after, ht, h t w.1 w.2 ht]

theorem after_waits_sublist (now : T) (p : Pending T τ ω) (u : τ) :
    ((p.after now).waits u).Sublist (p.waits u) := by
  rw [waits, after, waits]
  cases p u with
  | none => exact .refl _
  | some v =>
      by_cases hv : now < v.1
      · simp [Option.filter, hv]
      · simp [Option.filter, hv]

theorem due_nil (h : ∀ t e ops, p t = some (e, ops) → now < e) : Due now p [] := by
  refine ⟨.nil, by simp, fun entry => ?_⟩
  simp only [List.not_mem_nil, false_iff, not_and, not_le, expiry, Option.map_eq_some_iff]
  rintro ⟨⟨e, ops⟩, hp, he⟩
  exact he ▸ h _ e ops hp

theorem after_clear [DecidableEq τ] {t : τ} {e : T} {ops : List ω} (ht : p t = some (e, ops))
    (he : e ≤ now) : (p.clear t).after now = p.after now := by
  funext u
  by_cases hu : u = t
  · simp [after, clear, hu, ht, Option.filter, he]
  · simp [after, clear, hu]

/-- The earliest timer is due, and then the others that are. -/
theorem Due.cons [DecidableEq τ] {t : τ} {e : T} {ops : List ω} {due : List (HeapEntry T τ)}
    (ht : p t = some (e, ops)) (he : e ≤ now)
    (hmin : ∀ u e' ops', p u = some (e', ops') → e ≤ e')
    (h : Due now (p.clear t) due) : Due now p (⟨e, t⟩ :: due) := by
  have hexp := expiry_of_some ht
  have hrest (entry : HeapEntry T τ) (hin : entry ∈ due) :
      entry.timer ≠ t ∧ p.expiry entry.timer = some entry.time := by
    have hentry := ((h.mem entry).mp hin).1
    rw [clear_expiry] at hentry
    by_cases hne : entry.timer = t
    · rw [hne, Function.update_self] at hentry
      cases hentry
    · rw [Function.update_of_ne hne] at hentry
      exact ⟨hne, hentry⟩
  refine ⟨List.pairwise_cons.mpr ⟨fun entry hin => ?_, h.sorted⟩, ?_, fun entry => ?_⟩
  · obtain ⟨w, hw, hw1⟩ := Option.map_eq_some_iff.mp (hrest entry hin).2
    exact hw1 ▸ hmin _ w.1 w.2 hw
  · refine List.nodup_cons.mpr ⟨fun hin => ?_, h.nodup⟩
    obtain ⟨entry, hin, hentry⟩ := List.mem_map.mp hin
    exact (hrest entry hin).1 hentry
  · rw [List.mem_cons, h.mem, clear_expiry]
    by_cases hne : entry.timer = t
    · rw [hne, Function.update_self, hexp, Option.some.injEq]
      constructor
      · rintro (rfl | ⟨hn, -⟩)
        · exact ⟨rfl, he⟩
        · cases hn
      · rintro ⟨rfl, -⟩
        exact .inl (by rw [← hne])
    · rw [Function.update_of_ne hne]
      exact or_iff_right fun hn => hne (by rw [hn])

end Pending

namespace TimerQueue

variable {T τ ω : Type} [DecidableEq τ] [LinearOrder T] {q r : TimerQueue T τ ω}
variable {x : τ → Option T} {p : Pending T τ ω} {t : τ} {time : T}

omit [DecidableEq τ] [LinearOrder T] in
theorem Backed.nodup (h : Backed q) : (q.heap.map HeapEntry.timer).Nodup := by
  apply List.nodup_iff_getElem?_ne_getElem?.mpr
  intro i j hij hj heq
  rw [List.length_map] at hj
  rw [List.getElem?_map, List.getElem?_map, List.getElem?_eq_getElem hj,
    List.getElem?_eq_getElem (hij.trans hj), Option.map_some, Option.map_some,
    Option.some.injEq] at heq
  have hi := h i _ (List.getElem?_eq_getElem (hij.trans hj))
  rw [heq, h j _ (List.getElem?_eq_getElem hj), Option.some.injEq] at hi
  omega

omit [DecidableEq τ] in
/-- The heap is as long as the list of the timers with expiries. -/
theorem Heaped.length_eq {l : List τ} (h : Heaped q x) (hl : l.Nodup)
    (hmem : ∀ t, t ∈ l ↔ x t ≠ none) : q.heap.length = l.length := by
  have hperm : (q.heap.map HeapEntry.timer).Perm l := by
    refine (List.perm_ext_iff_of_nodup h.backed.nodup hl).mpr fun t => ?_
    rw [hmem, List.mem_map, Option.ne_none_iff_exists']
    constructor
    · rintro ⟨entry, hin, rfl⟩
      exact ⟨entry.time, (h.mem entry).mp hin⟩
    · rintro ⟨e, he⟩
      exact ⟨⟨e, t⟩, (h.mem ⟨e, t⟩).mpr he, rfl⟩
  simpa using hperm.length_eq

theorem Stores.removeTimer_length {ops : List ω} (h : Stores q p) (ht : p t = some (time, ops)) :
    (removeTimer t { q with opQueue := Function.update q.opQueue t [] }).heap.length + 1 =
      q.heap.length := by
  have h' := removeTimer_stores h ht
  obtain ⟨l, hl, hmem⟩ := h.listed
  have htl : t ∈ l := (hmem t).mpr (by simp [Pending.expiry, ht])
  have hmem' : ∀ u, u ∈ l.erase t ↔ (p.clear t).expiry u ≠ none := by
    intro u
    rw [hl.nodup.mem_erase_iff, hmem, Pending.clear_expiry]
    by_cases hu : u = t
    · simp [hu]
    · simp [hu]
  rw [h.heaped.length_eq hl.nodup hmem, h'.heaped.length_eq (hl.nodup.erase t) hmem',
    List.length_erase_of_mem htl]
  exact Nat.sub_add_cancel (List.length_pos_of_mem htl)

theorem Stores.later {now : T} (h : Stores q p) (hnow : now < q.key 0) :
    ∀ t e ops, p t = some (e, ops) → now < e := by
  intro t e ops ht
  obtain ⟨i, hi, -⟩ := h.heaped.getElem? (Pending.expiry_of_some ht)
  have hle := h.heaped.ordered.head_le i
  rw [key_of_getElem? hi] at hle
  exact WithTop.coe_lt_coe.mp (hnow.trans_le hle)

theorem readyLoop_cons {now : T} {n : ℕ} {first : HeapEntry T τ} {rest : List (HeapEntry T τ)}
    (hheap : q.heap = first :: rest) (hlt : ¬ now < first.time) :
    let r := readyLoop now n (removeTimer first.timer
      { q with opQueue := Function.update q.opQueue first.timer [] })
    readyLoop now (n + 1) q =
      ((q.opQueue first.timer).map (fun op => (op, .expired)) ++ r.1, r.2) := by
  simp only [readyLoop, hheap, if_neg hlt]

theorem readyLoop_stores (now : T) {n : ℕ} (h : Stores q p) (hn : q.heap.length ≤ n) :
    ∃ due, p.Due now due ∧
      (readyLoop now n q).1 = (due.flatMap fun entry => p.waits entry.timer).map
        (fun op => (op, .expired)) ∧
      Stores (readyLoop now n q).2 (p.after now) := by
  induction n generalizing q p with
  | zero =>
      have hnow : (now : WithTop T) < q.key 0 := by
        rw [key_eq_top hn]
        exact WithTop.coe_lt_top now
      refine ⟨[], Pending.due_nil (h.later hnow), rfl, ?_⟩
      rw [Pending.after_eq_self (h.later hnow)]
      exact h
  | succ n ih =>
      cases hheap : q.heap with
      | nil =>
          have hnow : (now : WithTop T) < q.key 0 := by
            rw [key_eq_top (by rw [hheap]; exact Nat.le_refl 0)]
            exact WithTop.coe_lt_top now
          refine ⟨[], Pending.due_nil (h.later hnow), by simp [readyLoop, hheap], ?_⟩
          rw [Pending.after_eq_self (h.later hnow)]
          simpa only [readyLoop, hheap] using h
      | cons first rest =>
          have h0 : q.heap[0]? = some first := by rw [hheap, List.getElem?_cons_zero]
          have hfirst := (h.heaped.mem first).mp (List.mem_of_getElem? h0)
          by_cases hlt : now < first.time
          · have hnow : (now : WithTop T) < q.key 0 := by
              rw [key_of_getElem? h0]
              exact WithTop.coe_lt_coe.mpr hlt
            refine ⟨[], Pending.due_nil (h.later hnow), by simp [readyLoop, hheap, hlt], ?_⟩
            rw [Pending.after_eq_self (h.later hnow)]
            simpa only [readyLoop, hheap, if_pos hlt] using h
          · obtain ⟨⟨e, ops⟩, hp, he⟩ := Option.map_eq_some_iff.mp hfirst
            obtain rfl : e = first.time := he
            have hmin : ∀ u e' ops', p u = some (e', ops') → first.time ≤ e' := by
              intro u e' ops' hu
              obtain ⟨i, hi, -⟩ := h.heaped.getElem? (Pending.expiry_of_some hu)
              have hle := h.heaped.ordered.head_le i
              rwa [key_of_getElem? h0, key_of_getElem? hi, WithTop.coe_le_coe] at hle
            have hlen := h.removeTimer_length hp
            obtain ⟨due, hdue, hout, hstores⟩ := ih (removeTimer_stores h hp) (by omega)
            refine ⟨first :: due, hdue.cons hp (not_lt.mp hlt) hmin, ?_, ?_⟩
            · -- the other timers that are due keep their waits
              have hwaits : ∀ entry ∈ due,
                  (p.clear first.timer).waits entry.timer = p.waits entry.timer := by
                intro entry hin
                have hnodup := (hdue.cons hp (not_lt.mp hlt) hmin).nodup
                rw [List.map_cons, List.nodup_cons] at hnodup
                have hne : entry.timer ≠ first.timer := fun hn =>
                  hnodup.1 (hn ▸ List.mem_map_of_mem hin)
                rw [Pending.clear_waits, Function.update_of_ne hne]
              rw [readyLoop_cons hheap hlt, List.flatMap_cons, List.map_append, hout,
                List.flatMap_congr hwaits, h.queued]
            · rw [readyLoop_cons hheap hlt]
              rwa [Pending.after_clear hp (not_lt.mp hlt)] at hstores

theorem getReadyTimers_stores (h : Stores q p) (now : T) :
    ∃ due, p.Due now due ∧
      (getReadyTimers now q).1 = (due.flatMap fun entry => p.waits entry.timer).map
        (fun op => (op, .expired)) ∧
      Stores (getReadyTimers now q).2 (p.after now) :=
  readyLoop_stores now h (Nat.le_refl _)

section All

omit [LinearOrder T] in
/-- The walk along the list `l`. It leaves the pointers of the timers ahead alone. -/
theorem allLoop_eq {l : List τ} {n : ℕ} (hd : l.Nodup) (hn : l.length ≤ n)
    (hhead : q.links.head = l.head?) (hnext : ∀ t ∈ l, q.links.next t = follower l t) :
    (allLoop n q).1 = l.flatMap q.opQueue ∧ (allLoop n q).2.links.head = none ∧
      (∀ u, (allLoop n q).2.links.next u = if u ∈ l then none else q.links.next u) ∧
      (∀ u, (allLoop n q).2.links.prev u = if u ∈ l then none else q.links.prev u) ∧
      ∀ u, (allLoop n q).2.opQueue u = if u ∈ l then [] else q.opQueue u := by
  induction l generalizing n q with
  | nil =>
      cases n with
      | zero => simpa [allLoop] using hhead
      | succ n => simp [allLoop, show q.links.head = none from hhead]
  | cons t l ih =>
      obtain ⟨n, rfl⟩ : ∃ m, n = m + 1 := ⟨n - 1, by rw [List.length_cons] at hn; omega⟩
      obtain ⟨htl, hd⟩ := List.nodup_cons.mp hd
      have ht : q.links.next t = l.head? := by
        rw [hnext t List.mem_cons_self, follower, if_pos rfl]
      have hne {u : τ} (hu : u ∈ l) : u ≠ t := fun he => htl (he ▸ hu)
      have hops : ∀ u ∈ l, Function.update q.opQueue t [] u = q.opQueue u := fun u hu =>
        Function.update_of_ne (hne hu) _ _
      have hhead : q.links.head = some t := hhead
      simp only [allLoop, hhead]
      obtain ⟨hout, hhead', hnext', hprev', hqueue'⟩ := ih (n := n)
        (q := { q with
          links := q.links.popFront t
          opQueue := Function.update q.opQueue t [] }) hd
        (by rw [List.length_cons] at hn; omega) ht
        (by
          intro u hu
          rw [Links.popFront_next, if_neg (hne hu), hnext u (List.mem_cons_of_mem t hu), follower,
            if_neg (hne hu)])
      refine ⟨?_, hhead', ?_, ?_, ?_⟩
      · rw [hout, List.flatMap_cons, List.flatMap_congr hops]
      · intro u
        rw [hnext', Links.popFront_next]
        by_cases hu : u = t
        · simp [hu]
        · simp [hu]
      · intro u
        rw [hprev', Links.popFront_prev]
        by_cases hu : u = t
        · simp [hu]
        · simp [hu]
      · intro u
        rw [hqueue']
        by_cases hu : u = t
        · simp [hu]
        · simp [hu]

/-- Nothing is left, but the timers may still have indices into the heap. -/
structure Emptied (q : TimerQueue T τ ω) : Prop where
  linked : q.links.Represents []
  queued : ∀ t, q.opQueue t = []
  heap : q.heap = []

theorem getAllTimers_emptied (h : Stores q p) :
    (∃ l : List τ, l.Nodup ∧ (∀ t, t ∈ l ↔ p t ≠ none) ∧
        (getAllTimers q).1 = l.flatMap p.waits) ∧ Emptied (getAllTimers q).2 := by
  obtain ⟨l, hl, hmem⟩ := h.listed
  have hlen := h.heaped.length_eq hl.nodup hmem
  obtain ⟨hout, hhead, hnext, hprev, hqueue⟩ := allLoop_eq (n := q.heap.length) hl.nodup hlen.ge
    hl.head fun t _ => congrFun hl.next t
  refine ⟨⟨l, hl.nodup, fun t => ?_, by rw [getAllTimers, hout, h.queued]⟩, ⟨?_, ?_, rfl⟩⟩
  · rw [hmem, Ne, Pending.expiry_eq_none]
  · refine ⟨List.nodup_nil, hhead, funext fun u => ?_, funext fun u => ?_⟩
    · refine (hnext u).trans ?_
      split
      · rfl
      · rw [hl.next, follower_of_notMem ‹_›, follower]
    · refine (hprev u).trans ?_
      split
      · rfl
      · rw [hl.prev, follower_of_notMem (by simpa)]
        rfl
  · intro u
    refine (hqueue u).trans ?_
    split
    · rfl
    · rename_i hu
      rw [hmem, not_not, Pending.expiry_eq_none] at hu
      exact h.waits_of_none hu

end All

end TimerQueue

end AsioSamples.Asio
