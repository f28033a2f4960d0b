import AsioSamples.Asio.Reactor

/-!
# The reactor keeps its waits

Each operation of the reactor is one that the store of waits allows, and the timer descriptor
stays armed for the earliest expiry although only some operations arm it.
-/

namespace AsioSamples.Asio

open Framework

variable {τ ω κ : Type} [DecidableEq τ]

section Timeliness

variable {p p' : Pending ℤ τ ω} {q : TimerQueue ℤ τ ω} {t : τ} {e e' now maxDuration : ℤ}
variable {timeout : Timeout} {timerFd : Option Timeout}

theorem Timeout.WakesBy.mono (h : timeout.WakesBy e) (he : e ≤ e') : timeout.WakesBy e' := by
  rcases h with h | h
  · exact .inl h
  · exact .inr (by omega)

/-- The cap of five minutes and the rounding only make the wake-up earlier, or less than a
microsecond later. -/
theorem toUsec_wakesBy (now e maxDuration : ℤ) :
    Timeout.WakesBy ⟨now, toUsec (e - now) maxDuration⟩ e := by
  unfold Timeout.WakesBy toUsec
  dsimp only
  split
  · exact .inl rfl
  · right
    split_ifs <;> omega

omit [DecidableEq τ] in
theorem Timely.subset (h : Timely timerFd p)
    (hsub : ∀ t e, p'.expiry t = some e → ∃ s, p.expiry s = some e) : Timely timerFd p' := by
  intro t e ht
  obtain ⟨s, hs⟩ := hsub t e ht
  exact h s e hs

theorem updateTimeout_timely (h : q.Stores p) :
    Timely (some ⟨now, q.waitDurationUsec maxDuration now⟩) p := by
  intro t e ht
  obtain ⟨i, hi, -⟩ := h.heaped.getElem? ht
  refine ⟨_, rfl, ?_⟩
  cases hheap : q.heap with
  | nil =>
      rw [hheap] at hi
      cases hi
  | cons first rest =>
      have h0 : q.heap[0]? = some first := by rw [hheap, List.getElem?_cons_zero]
      have hle := h.heaped.ordered.head_le i
      rw [TimerQueue.key_of_getElem? h0, TimerQueue.key_of_getElem? hi, WithTop.coe_le_coe] at hle
      simp only [TimerQueue.waitDurationUsec, hheap]
      exact (toUsec_wakesBy now first.time maxDuration).mono hle

theorem Pending.clear_expiry_some (h : (p.clear s).expiry t = some e) : p.expiry t = some e := by
  rw [clear_expiry] at h
  by_cases hts : t = s
  · rw [hts, Function.update_self] at h
    cases h
  · rwa [Function.update_of_ne hts] at h

theorem Pending.keep_expiry {ops : List ω} (h : (p.keep s ops).expiry t = some e) :
    p.expiry t = some e := by
  unfold keep at h
  split at h
  · exact clear_expiry_some h
  · rw [expiry_update] at h
    by_cases hts : t = s
    · rw [hts, Function.update_self, Option.map_map] at h
      rwa [hts]
    · rwa [Function.update_of_ne hts] at h

end Timeliness

namespace TimerQueue

variable {q : TimerQueue ℤ τ ω} {s t : τ}

theorem Emptied.not_active (h : q.Emptied) (t : τ) : ¬ q.Active t := by
  rw [Active, ← h.linked.mem_iff]
  exact List.not_mem_nil

theorem Emptied.cancelTimer (h : q.Emptied) (t : τ) (maxCancelled : Option ℕ) :
    cancelTimer t maxCancelled q = ([], q) := if_neg (h.not_active t)

theorem Emptied.cancelTimerByKey [DecidableEq κ] (h : q.Emptied) (cancellationKey : ω → κ)
    (t : τ) (k : κ) :
    cancelTimerByKey cancellationKey t k q = ([], q) := if_neg (h.not_active t)

theorem Emptied.moveTimer (h : q.Emptied) (s t : τ) : (moveTimer s t q).Emptied where
  linked := h.linked.replace_of_notMem List.not_mem_nil List.not_mem_nil
  queued u := by simp [TimerQueue.moveTimer, Function.update_apply, h.queued]
  heap := by
    simp only [TimerQueue.moveTimer, h.heap]
    split
    · rfl
    · exact List.modify_nil _ _

theorem Emptied.getReadyTimers (h : q.Emptied) (now : ℤ) : getReadyTimers now q = ([], q) := by
  rw [TimerQueue.getReadyTimers, h.heap]
  rfl

theorem Emptied.getAllTimers (h : q.Emptied) : getAllTimers q = ([], q) := by
  obtain ⟨links, opQueue, heapIndex, heap⟩ := q
  obtain rfl : heap = [] := h.heap
  rfl

end TimerQueue

namespace Reactor

variable {r : Reactor τ ω} {w : Waits τ ω} {p p' : Pending ℤ τ ω}

/-- The reactor holds the waits `w`. -/
structure Holds (r : Reactor τ ω) (w : Waits τ ω) : Prop where
  shutdown : r.shutdown = w.shutdown
  completed : r.completed = w.completed
  abandoned : r.abandoned = w.abandoned
  stores : w.shutdown = false → r.timerQueue.Stores w.pending
  timely : w.shutdown = false → Timely r.timerFd w.pending
  emptied : w.shutdown = true → r.timerQueue.Emptied ∧ w.pending = fun _ => none

theorem holds_initial : Holds ({} : Reactor τ ω) {} where
  shutdown := rfl
  completed := rfl
  abandoned := rfl
  stores _ := TimerQueue.stores_empty
  timely _ := by simp [Timely, Pending.expiry]
  emptied h := by cases h

/-- A reactor that is not shut down goes on holding waits. -/
theorem Holds.open {r' : Reactor τ ω} (hr : r'.shutdown = false) (hq : r'.timerQueue.Stores p)
    (ht : Timely r'.timerFd p) : Holds r' ⟨p, false, r'.completed, r'.abandoned⟩ where
  shutdown := hr
  completed := rfl
  abandoned := rfl
  stores _ := hq
  timely _ := ht
  emptied h := by cases h

theorem scheduleTimer_timely [DecidableEq ω] (h : r.timerQueue.Stores p)
    (ht : Timely r.timerFd p) (now time : ℤ) (timer : τ) (op : ω) (hopen : r.shutdown = false) :
    Timely (scheduleTimer now time timer op r).timerFd (p.schedule time timer op) := by
  have hstores := TimerQueue.enqueueTimer_stores h time timer op
  rw [scheduleTimer, hopen]
  cases hearliest : (r.timerQueue.enqueueTimer time timer op).1 with
  | true =>
      simp only [Bool.false_eq_true, if_false, hearliest, if_true]
      exact updateTimeout_timely hstores
  | false =>
      simp only [Bool.false_eq_true, if_false, hearliest]
      intro t e hte
      rw [Pending.schedule, Pending.expiry_update] at hte
      cases hp : p timer with
      | none =>
          by_cases htt : t = timer
          · rw [htt, Function.update_self, hp, Option.map_some, Option.some.injEq] at hte
            obtain ⟨s, e', hs, hle⟩ := TimerQueue.enqueueTimer_not_earliest h hp hearliest
            obtain ⟨timeout, hfd, hwakes⟩ := ht s e' hs
            exact ⟨timeout, hfd, hwakes.mono (hle.trans_eq hte)⟩
          · rw [Function.update_of_ne htt] at hte
            exact ht t e hte
      | some v =>
          rw [hp, Option.map_some, Function.update_eq_self_iff.mpr (Pending.expiry_of_some hp).symm]
            at hte
          exact ht t e hte

/-- Where waits leave the queue for the scheduler and none are added. -/
theorem Holds.complete (h : Holds r w) {q : TimerQueue ℤ τ ω} {posted ops : List (ω × WaitResult)}
    (hsub : ∀ t e, p.expiry t = some e → w.pending.expiry t = some e)
    (hopen : r.timerQueue.Stores w.pending → posted = ops ∧ q.Stores p)
    (hclosed : r.timerQueue.Emptied → w.pending = (fun _ => none) →
      posted = ops ∧ q.Emptied ∧ p = fun _ => none) :
    Holds { r with timerQueue := q, completed := r.completed ++ posted }
      { w with pending := p, completed := w.completed ++ ops } where
  shutdown := h.shutdown
  completed := by
    rcases Bool.eq_false_or_eq_true w.shutdown with hw | hw
    · rw [h.completed, (hclosed (h.emptied hw).1 (h.emptied hw).2).1]
    · rw [h.completed, (hopen (h.stores hw)).1]
  abandoned := h.abandoned
  stores hw := (hopen (h.stores hw)).2
  timely hw := (h.timely hw).subset fun t e ht => ⟨t, hsub t e ht⟩
  emptied hw := (hclosed (h.emptied hw).1 (h.emptied hw).2).2

theorem Holds.cancelTimer (h : Holds r w) (timer : τ) (maxCancelled : Option ℕ) {n : ℕ}
    (hn : n = maxCancelled.getD (w.pending.waits timer).length) :
    Holds (cancelTimer timer maxCancelled r).2
      { w with
        pending := w.pending.keep timer ((w.pending.waits timer).drop n)
        completed := w.completed ++
          ((w.pending.waits timer).take n).map fun op => (op, .operationAborted) } := by
  subst hn
  refine h.complete (fun t e => Pending.keep_expiry) (fun hq => ?_) fun hq hnone => ?_
  · exact TimerQueue.cancelTimer_stores hq timer maxCancelled
  · rw [hq.cancelTimer, hnone]
    exact ⟨by simp [Pending.waits], hq, by simp [Pending.waits, Pending.keep, Pending.clear]⟩

theorem Holds.cancelTimer_count (h : Holds r w) (timer : τ) (maxCancelled : Option ℕ) :
    (Reactor.cancelTimer timer maxCancelled r).1 = ((w.pending.waits timer).take
      (maxCancelled.getD (w.pending.waits timer).length)).length := by
  rcases Bool.eq_false_or_eq_true w.shutdown with hw | hw
  · obtain ⟨hempty, hnone⟩ := h.emptied hw
    simp [Reactor.cancelTimer, hempty.cancelTimer, hnone, Pending.waits]
  · have hout := (TimerQueue.cancelTimer_stores (h.stores hw) timer maxCancelled).1
    simp only [Reactor.cancelTimer, hout, List.length_map]

theorem Holds.cancelTimerByKey [DecidableEq κ] (h : Holds r w) (cancellationKey : ω → κ)
    (timer : τ) (k : κ) :
    Holds (cancelTimerByKey cancellationKey timer k r)
      { w with
        pending := w.pending.keep timer
          ((w.pending.waits timer).filter fun op => cancellationKey op ≠ k)
        completed := w.completed ++
          ((w.pending.waits timer).filter fun op => cancellationKey op = k).map
            fun op => (op, .operationAborted) } := by
  refine h.complete (fun t e => Pending.keep_expiry) (fun hq => ?_) fun hq hnone => ?_
  · exact TimerQueue.cancelTimerByKey_stores hq cancellationKey timer k
  · rw [hq.cancelTimerByKey, hnone]
    exact ⟨by simp [Pending.waits], hq, by simp [Pending.waits, Pending.keep, Pending.clear]⟩

theorem Holds.moveTimer (h : Holds r w) (target source : τ) :
    Holds (moveTimer target source r)
      { w with
        pending := (w.pending.clear target).move target source
        completed := w.completed ++
          (w.pending.waits target).map fun op => (op, .operationAborted) } := by
  have hcancel := h.cancelTimer target none rfl
  simp only [Option.getD_none, List.drop_length, List.take_length, Pending.keep, if_true]
    at hcancel
  have hnone : (w.pending.clear target) target = none := Function.update_self ..
  refine ⟨hcancel.shutdown, hcancel.completed, hcancel.abandoned,
    fun hw => TimerQueue.moveTimer_stores (hcancel.stores hw) hnone source,
    fun hw => (hcancel.timely hw).subset fun t e ht => ?_, fun hw => ?_⟩
  · rw [Pending.move] at ht
    have ht := Pending.clear_expiry_some ht
    rw [Pending.expiry_update] at ht
    by_cases hts : t = target
    · rw [hts, Function.update_self] at ht
      exact ⟨source, ht⟩
    · rw [Function.update_of_ne hts] at ht
      exact ⟨t, ht⟩
  · obtain ⟨hempty, hclear⟩ := hcancel.emptied hw
    refine ⟨hempty.moveTimer target source, ?_⟩
    dsimp only at hclear ⊢
    rw [hclear]
    simp [Pending.move, Pending.clear]

theorem Holds.run (h : Holds r w) (now later : ℤ) :
    ∃ due, w.pending.Due now due ∧ Holds (run now later r)
      { w with
        pending := w.pending.after now
        completed := w.completed ++ (w.pending.waitsOf due).map fun op => (op, .expired) } := by
  rcases Bool.eq_false_or_eq_true w.shutdown with hw | hw
  · obtain ⟨hempty, hnone⟩ := h.emptied hw
    refine ⟨[], Pending.due_nil (by simp [hnone]), h.shutdown, ?_, h.abandoned, ?_, ?_, ?_⟩
    · simp [Reactor.run, updateTimeout, hempty.getReadyTimers, h.completed, Pending.waitsOf]
    · simp [hw]
    · simp [hw]
    · refine fun _ => ⟨?_, ?_⟩
      · simpa [Reactor.run, updateTimeout, hempty.getReadyTimers] using hempty
      · rw [Pending.after_eq_self (by simp [hnone]), hnone]
  · obtain ⟨due, hdue, hout, hstores⟩ := TimerQueue.getReadyTimers_stores (h.stores hw) now
    refine ⟨due, hdue, h.shutdown, ?_, h.abandoned, fun _ => hstores, fun _ => ?_, ?_⟩
    · simp only [Reactor.run, updateTimeout, hout, h.completed, Pending.waitsOf]
    · exact updateTimeout_timely hstores
    · simp [hw]

theorem Holds.close (h : Holds r w) :
    ∃ l : List τ, l.Nodup ∧ (∀ t, t ∈ l ↔ w.pending t ≠ none) ∧ Holds (close r)
      { w with
        pending := fun _ => none
        shutdown := true
        abandoned := w.abandoned ++ l.flatMap w.pending.waits } := by
  rcases Bool.eq_false_or_eq_true w.shutdown with hw | hw
  · obtain ⟨hempty, hnone⟩ := h.emptied hw
    refine ⟨[], .nil, by simp [hnone], rfl, h.completed, ?_, ?_, ?_, fun _ => ⟨?_, rfl⟩⟩
    · simp [Reactor.close, hempty.getAllTimers, h.abandoned]
    · simp
    · simp
    · simpa [Reactor.close, hempty.getAllTimers] using hempty
  · obtain ⟨⟨l, hl, hmem, hout⟩, hempty⟩ := TimerQueue.getAllTimers_emptied (h.stores hw)
    refine ⟨l, hl, hmem, rfl, h.completed, ?_, ?_, ?_, fun _ => ⟨hempty, rfl⟩⟩
    · simp only [Reactor.close, hout, h.abandoned]
    · simp
    · simp

variable [DecidableEq ω]

theorem scheduleTimer_open (hopen : r.shutdown = false) (now time : ℤ) (timer : τ) (op : ω) :
    ∃ timerFd, scheduleTimer now time timer op r =
      { r with timerQueue := (r.timerQueue.enqueueTimer time timer op).2, timerFd := timerFd } := by
  rw [scheduleTimer, hopen]
  simp only [Bool.false_eq_true, if_false]
  split
  · exact ⟨_, rfl⟩
  · exact ⟨r.timerFd, rfl⟩

theorem Holds.scheduleTimer (h : Holds r w) (hw : w.shutdown = false) (now time : ℤ) (timer : τ)
    (op : ω) :
    Holds (scheduleTimer now time timer op r)
      { w with pending := w.pending.schedule time timer op } := by
  have hr : r.shutdown = false := h.shutdown.trans hw
  have htimely := scheduleTimer_timely (h.stores hw) (h.timely hw) now time timer op hr
  have hstores := TimerQueue.enqueueTimer_stores (h.stores hw) time timer op
  obtain ⟨timerFd, heq⟩ := scheduleTimer_open hr now time timer op
  rw [heq] at htimely ⊢
  exact ⟨h.shutdown, h.completed, h.abandoned, fun _ => hstores, fun _ => htimely,
    fun hw' => absurd (hw.symm.trans hw') Bool.false_ne_true⟩

/-- Every operation of the reactor is one of the store of waits. -/
theorem Holds.step [DecidableEq κ] (h : Holds r w) (cancellationKey : ω → κ) (e : Event τ ω κ) :
    ∃ w', w.Step cancellationKey e w' ∧ Holds (step cancellationKey r e) w' := by
  cases e with
  | schedule now time timer op =>
      cases hw : w.shutdown with
      | false => exact ⟨_, .scheduled hw now time timer op, h.scheduleTimer hw now time timer op⟩
      | true =>
          have hr : r.shutdown = true := h.shutdown.trans hw
          refine ⟨_, .refused hw now time timer op, ?_⟩
          simp only [Reactor.step, Reactor.scheduleTimer, hr, if_true]
          exact ⟨hw.symm, congrArg (· ++ [_]) h.completed, h.abandoned, h.stores,
            h.timely, h.emptied⟩
  | cancel timer maxCancelled =>
      exact ⟨_, .cancelled timer maxCancelled _ rfl, h.cancelTimer timer maxCancelled rfl⟩
  | cancelByKey timer k =>
      exact ⟨_, .cancelledByKey timer k, h.cancelTimerByKey cancellationKey timer k⟩
  | move target source => exact ⟨_, .moved target source, h.moveTimer target source⟩
  | run now later =>
      obtain ⟨due, hdue, hholds⟩ := h.run now later
      exact ⟨_, .ended now later due hdue, hholds⟩
  | close =>
      obtain ⟨l, hl, hmem, hholds⟩ := h.close
      exact ⟨_, .closed l hl hmem, hholds⟩

end Reactor

end AsioSamples.Asio
