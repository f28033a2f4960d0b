import AsioSamples.Asio.TimerService

/-!
# What a timer says about its waits

The expiry is stored twice, in the timer and in the heap of the queue, and so is whether waits
are outstanding. The members of a timer keep the two in step.
-/

namespace AsioSamples.Asio

open Framework

variable {τ ω : Type} [DecidableEq τ]

section Creation

variable {T : Type} {q : TimerQueue T τ ω} {p : Pending T τ ω} {t : τ}

private theorem update_same {β : Type} {f : τ → β} {b : β} (h : f t = b) :
    Function.update f t b = f := by
  rw [← h, Function.update_eq_self]

theorem TimerQueue.Stores.initTimer [LinearOrder T] (h : q.Stores p) (ht : p t = none) :
    q.initTimer t = q := by
  obtain ⟨l, hl, hmem⟩ := h.listed
  have hx : p.expiry t = none := Pending.expiry_eq_none.mpr ht
  have htl : t ∉ l := fun hin => (hmem t).mp hin hx
  have hnext : q.links.next t = none := by rw [hl.next, follower_of_notMem htl]
  have hprev : q.links.prev t = none := by rw [hl.prev, follower_of_notMem (by simpa)]
  simp only [TimerQueue.initTimer, Links.setNext, Links.setPrev, update_same hnext,
    update_same hprev, update_same (h.heaped.idle t hx), update_same (h.waits_of_none ht)]

theorem TimerQueue.Emptied.initTimer (h : q.Emptied) (t : τ) : (q.initTimer t).Emptied where
  linked := by
    have hnext : q.links.next t = none := by rw [h.linked.next, follower]
    have hprev : q.links.prev t = none := by rw [h.linked.prev, List.reverse_nil, follower]
    simp only [TimerQueue.initTimer, Links.setNext, Links.setPrev, update_same hnext,
      update_same hprev]
    exact h.linked
  queued u := by simp [TimerQueue.initTimer, Function.update_apply, h.queued]
  heap := h.heap

end Creation

/-- The waits on a timer are cancelled. -/
def Waits.cancel (timer : τ) (w : Waits τ ω) : Waits τ ω :=
  { w with
    pending := w.pending.clear timer
    completed := w.completed ++ (w.pending.waits timer).map fun op => (op, .operationAborted) }

theorem Waits.cancel_pending (t : τ) (w : Waits τ ω) : (w.cancel t).pending t = none :=
  Function.update_self ..

namespace TimerService

variable {s s' : TimerService τ ω} {w : Waits τ ω} {t u : τ}

/-- The service holds the waits `w`, and their timers know them. -/
structure Holds (s : TimerService τ ω) (w : Waits τ ω) : Prop where
  reactor : s.reactor.Holds w
  coherent : ∀ t e ops, w.pending t = some (e, ops) → s.alive t = true ∧ s.impl t = ⟨e, true⟩

theorem Holds.pending_eq_none (h : s.Holds w) (ht : s.alive t = false) : w.pending t = none := by
  cases hp : w.pending t with
  | none => rfl
  | some v =>
      have := (h.coherent t v.1 v.2 hp).1
      rw [ht] at this
      cases this

theorem Holds.of_not_flagged (h : s.Holds w) (ht : (s.impl t).mightHavePendingWaits = false) :
    w.pending t = none := by
  cases hp : w.pending t with
  | none => rfl
  | some v =>
      rw [(h.coherent t v.1 v.2 hp).2] at ht
      cases ht

theorem setImpl_self (impl : Implementation) : (setImpl t impl s).impl t = impl :=
  Function.update_self ..

theorem setImpl_of_ne (hut : u ≠ t) (impl : Implementation) :
    (setImpl t impl s).impl u = s.impl u := Function.update_of_ne hut _ _

theorem Holds.setImpl (h : s.Holds w) (ht : w.pending t = none) (impl : Implementation) :
    (setImpl t impl s).Holds w where
  reactor := h.reactor
  coherent u e ops hu := by
    have hut : u ≠ t := by
      intro he
      rw [he, ht] at hu
      cases hu
    rw [setImpl_of_ne hut]
    exact h.coherent u e ops hu

theorem Holds.create (h : s.Holds w) (ht : s.alive t = false) : (create t s).Holds w := by
  have hnone := h.pending_eq_none ht
  refine ⟨⟨h.reactor.shutdown, h.reactor.completed, h.reactor.abandoned, fun hw => ?_,
    h.reactor.timely, fun hw => ?_⟩, fun u e ops hu => ?_⟩
  · have hstores := h.reactor.stores hw
    simp only [TimerService.create, hstores.initTimer hnone]
    exact hstores
  · exact ⟨(h.reactor.emptied hw).1.initTimer t, (h.reactor.emptied hw).2⟩
  · obtain ⟨hu, himpl⟩ := h.coherent u e ops hu
    refine ⟨?_, himpl⟩
    simp [TimerService.create, Function.update_apply, hu]

theorem Holds.construct (h : s.Holds w) (ht : s.alive t = false) : (construct t s).Holds w :=
  (h.create ht).setImpl (h.pending_eq_none ht) _

/-- What the reactor does to the waits of one timer, when it keeps those of `ops`. -/
theorem Holds.keep {r : Reactor τ ω} {completed : List (ω × WaitResult)} {ops : List ω}
    (h : s.Holds w)
    (hr : r.Holds { w with pending := w.pending.keep t ops, completed := completed }) :
    Holds { s with reactor := r }
      { w with pending := w.pending.keep t ops, completed := completed } where
  reactor := hr
  coherent u e ops' hu := by
    have hexp := Pending.keep_expiry (Pending.expiry_of_some hu)
    obtain ⟨v, hv, hve⟩ := Option.map_eq_some_iff.mp hexp
    obtain ⟨hal, himpl⟩ := h.coherent u v.1 v.2 hv
    exact ⟨hal, himpl.trans (by rw [hve])⟩

/-- The flag that says that no wait is outstanding spares the reactor nothing but work. -/
theorem Holds.cancel (h : s.Holds w) (t : τ) :
    (cancel t s).1 = (w.pending.waits t).length ∧ (cancel t s).2.Holds (w.cancel t) := by
  cases hflag : (s.impl t).mightHavePendingWaits with
  | false =>
      have hnone := h.of_not_flagged hflag
      have hwaits : w.pending.waits t = [] := by
        rw [Pending.waits, hnone]
        rfl
      simp only [TimerService.cancel, hflag, Bool.false_eq_true, if_false, hwaits, Waits.cancel,
        Pending.clear_of_none hnone, List.map_nil, List.append_nil]
      exact ⟨rfl, h⟩
  | true =>
      have hcancel := h.reactor.cancelTimer t none rfl
      have hcount := h.reactor.cancelTimer_count t none
      simp only [Option.getD_none, List.drop_length, List.take_length] at hcancel hcount
      simp only [TimerService.cancel, hflag, if_true, hcount, true_and]
      have hkeep := h.keep hcancel
      have hclear : w.pending.keep t [] = w.pending.clear t := if_pos rfl
      rw [hclear] at hkeep
      exact hkeep.setImpl (Function.update_self ..) _

theorem Holds.cancelOne (h : s.Holds w) (t : τ) : ∃ w', (cancelOne t s).2.Holds w' ∧
    ∀ u, (w'.pending.waits u).Sublist (w.pending.waits u) := by
  cases hflag : (s.impl t).mightHavePendingWaits with
  | false =>
      simp only [TimerService.cancelOne, hflag, Bool.false_eq_true, if_false]
      exact ⟨w, h, fun u => .refl _⟩
  | true =>
      have hcancel := h.keep (h.reactor.cancelTimer t (some 1) rfl)
      have hrest := Pending.keep_waits_sublist (List.drop_sublist 1 (w.pending.waits t))
      have hcount := h.reactor.cancelTimer_count t (some 1)
      simp only [TimerService.cancelOne, hflag, if_true]
      split
      · rename_i hzero
        refine ⟨_, hcancel.setImpl ?_ _, hrest⟩
        have hwaits : w.pending.waits t = [] := by
          rw [hzero, Option.getD_some, List.length_take] at hcount
          exact List.length_eq_zero_iff.mp (by omega)
        simp [hwaits, Pending.keep, Pending.clear]
      · exact ⟨_, hcancel, hrest⟩

theorem Holds.destroy (h : s.Holds w) (t : τ) : (destroy t s).Holds (w.cancel t) := by
  obtain ⟨-, hcancel⟩ := h.cancel t
  refine ⟨hcancel.reactor, fun u e ops hu => ?_⟩
  obtain ⟨hal, himpl⟩ := hcancel.coherent u e ops hu
  have hut : u ≠ t := by
    intro he
    rw [he, w.cancel_pending] at hu
    cases hu
  exact ⟨(Function.update_of_ne hut _ _).trans hal, himpl⟩

/-- The waits on `source` become those of `target`. -/
def moved (target source : τ) (w : Waits τ ω) : Waits τ ω :=
  { w.cancel target with pending := (w.pending.clear target).move target source }

theorem moved_source (t u : τ) (w : Waits τ ω) : (moved t u w).pending u = none :=
  Function.update_self ..

theorem moved_sublist (t u v : τ) (w : Waits τ ω) :
    ((moved t u w).pending.waits v).Sublist (w.pending.waits (if v = t then u else v)) := by
  refine (Pending.clear_waits_sublist _ u v).trans ?_
  rw [Pending.waits, Function.update_apply]
  by_cases hvt : v = t
  · rw [if_pos hvt, if_pos hvt]
    exact Pending.clear_waits_sublist _ t u
  · rw [if_neg hvt, if_neg hvt]
    exact Pending.clear_waits_sublist _ t v

theorem Holds.moveFrom (h : s.Holds w) (hne : t ≠ u) (ht : s.alive t = true) :
    (moveFrom t u s).Holds (moved t u w) := by
  refine ⟨h.reactor.moveTimer t u, fun v e ops hv => ?_⟩
  have hvu : v ≠ u := by
    intro he
    rw [he, moved_source] at hv
    cases hv
  simp only [TimerService.moveFrom, setImpl_of_ne hvu]
  simp only [moved, Pending.move] at hv
  rw [Pending.clear, Function.update_of_ne hvu] at hv
  by_cases hvt : v = t
  · rw [hvt, Function.update_self, Pending.clear, Function.update_of_ne (Ne.symm hne)] at hv
    exact ⟨hvt ▸ ht, hvt ▸ (Function.update_self ..).trans (h.coherent u e ops hv).2⟩
  · rw [Function.update_of_ne hvt, Pending.clear, Function.update_of_ne hvt] at hv
    obtain ⟨hal, himpl⟩ := h.coherent v e ops hv
    exact ⟨hal, (setImpl_of_ne hvt _).trans himpl⟩

theorem Holds.moveConstruct (h : s.Holds w) (hne : t ≠ u) (ht : s.alive t = false) :
    (moveConstruct t u s).Holds (moved t u w) :=
  (h.create ht).moveFrom hne (Function.update_self ..)

theorem Holds.expiresAt (h : s.Holds w) (t : τ) (expiryTime : ℤ) :
    (expiresAt t expiryTime s).1 = (w.pending.waits t).length ∧
      (expiresAt t expiryTime s).2.Holds (w.cancel t) := by
  obtain ⟨hcount, hcancel⟩ := h.cancel t
  exact ⟨hcount, hcancel.setImpl (Function.update_self ..) _⟩

theorem Holds.run (h : s.Holds w) (now later : ℤ) :
    ∃ due, w.pending.Due now due ∧ Holds { s with reactor := s.reactor.run now later }
      { w with
        pending := w.pending.after now
        completed := w.completed ++ (w.pending.waitsOf due).map fun op => (op, .expired) } := by
  obtain ⟨due, hdue, hrun⟩ := h.reactor.run now later
  exact ⟨due, hdue, hrun, fun t e ops ht => h.coherent t e ops (Option.filter_eq_some_iff.mp ht).1⟩

theorem Holds.shutdown (h : s.Holds w) :
    ∃ w', Holds { s with reactor := s.reactor.close } w' ∧ w'.pending = fun _ => none := by
  obtain ⟨l, -, -, hclose⟩ := h.reactor.close
  exact ⟨_, ⟨hclose, by simp⟩, rfl⟩

/-- The operation that a call starts, if any. -/
def Call.started : Call τ ω → List ω
  | .asyncWait _ _ op => [op]
  | _ => []

/-- The waits on a timer stand in the order in which they stood on some timer before, and what
`c` starts comes last. -/
def KeepsOrder (w : Waits τ ω) (c : Call τ ω) (w' : Waits τ ω) : Prop :=
  ∀ t, ∃ u, (w'.pending.waits t).Sublist (w.pending.waits u ++ c.started)

omit [DecidableEq τ] in
theorem KeepsOrder.of_sublist {c : Call τ ω} {w' : Waits τ ω}
    (h : ∀ t, (w'.pending.waits t).Sublist (w.pending.waits t)) : KeepsOrder w c w' :=
  fun t => ⟨t, (h t).trans (List.sublist_append_left _ _)⟩

theorem KeepsOrder.moved {c : Call τ ω} (t u : τ) : KeepsOrder w c (TimerService.moved t u w) :=
  fun v => ⟨_, (moved_sublist t u v w).trans (List.sublist_append_left _ _)⟩

variable [DecidableEq ω]

theorem Holds.asyncWait (h : s.Holds w) (hw : w.shutdown = false) (ht : s.alive t = true) (now : ℤ)
    (op : ω) : (asyncWait now t op s).Holds
      { w with pending := w.pending.schedule (s.impl t).expiry t op } := by
  have hexp :
      ((TimerService.setImpl t { s.impl t with mightHavePendingWaits := true } s).impl t).expiry =
      (s.impl t).expiry := by rw [setImpl_self]
  refine ⟨?_, fun u e ops hu => ?_⟩
  · simp only [TimerService.asyncWait, hexp]
    exact h.reactor.scheduleTimer hw now _ t op
  · simp only [Pending.schedule_eq] at hu
    by_cases hut : u = t
    · rw [hut, Function.update_self, Option.some.injEq, Prod.mk.injEq] at hu
      refine ⟨hut ▸ ht, ?_⟩
      simp only [TimerService.asyncWait, hut, setImpl_self]
      rw [Implementation.mk.injEq]
      refine ⟨Eq.trans ?_ hu.1, rfl⟩
      cases hp : w.pending t with
      | none => simp [Pending.expiry, hp]
      | some v => simp [Pending.expiry, hp, (h.coherent t v.1 v.2 hp).2]
    · rw [Function.update_of_ne hut] at hu
      obtain ⟨hal, himpl⟩ := h.coherent u e ops hu
      exact ⟨hal, (setImpl_of_ne hut _).trans himpl⟩

theorem Holds.asyncWait_closed (h : s.Holds w) (hw : w.shutdown = true) (now : ℤ) (t : τ) (op : ω) :
    (TimerService.asyncWait now t op s).Holds
      { w with completed := w.completed ++ [(op, .expired)] } := by
  obtain ⟨-, hnone⟩ := h.reactor.emptied hw
  have hset := h.setImpl (by rw [hnone] : w.pending t = none)
    { s.impl t with mightHavePendingWaits := true }
  refine ⟨?_, hset.coherent⟩
  obtain ⟨w', hstep, hholds⟩ := h.reactor.step (fun _ => ())
    (.schedule now ((TimerService.setImpl t _ s).impl t).expiry t op)
  cases hstep with
  | scheduled hopen => exact absurd (hopen.symm.trans hw) Bool.false_ne_true
  | refused => exact hholds

theorem Holds.step {c : Call τ ω} (h : s.Holds w) (hs : step s c = some s') :
    ∃ w', s'.Holds w' ∧ KeepsOrder w c w' := by
  have hclear : ∀ t, KeepsOrder w c (w.cancel t) := fun t =>
    .of_sublist fun u => Pending.clear_waits_sublist _ t u
  cases c with
  | construct t =>
      rw [TimerService.step, Option.ite_none_left_eq_some, Option.some.injEq] at hs
      obtain ⟨hal, rfl⟩ := hs
      exact ⟨w, h.construct (Bool.eq_false_iff.mpr hal), .of_sublist fun u => .refl _⟩
  | moveConstruct target source =>
      rw [TimerService.step, Option.ite_none_right_eq_some, Option.some.injEq] at hs
      obtain ⟨⟨hnot, hal⟩, rfl⟩ := hs
      exact ⟨_, h.moveConstruct (fun he => hnot (he ▸ hal)) (Bool.eq_false_iff.mpr hnot),
        .moved target source⟩
  | moveAssign target source =>
      rw [TimerService.step, Option.ite_none_right_eq_some, Option.some.injEq] at hs
      obtain ⟨⟨hal, -⟩, rfl⟩ := hs
      split
      · exact ⟨w, h, .of_sublist fun u => .refl _⟩
      · exact ⟨_, h.moveFrom ‹_› hal, .moved target source⟩
  | destroy t =>
      rw [TimerService.step, Option.ite_none_right_eq_some, Option.some.injEq] at hs
      obtain ⟨-, rfl⟩ := hs
      exact ⟨_, h.destroy t, hclear t⟩
  | cancel t =>
      rw [TimerService.step, Option.ite_none_right_eq_some, Option.some.injEq] at hs
      obtain ⟨-, rfl⟩ := hs
      exact ⟨_, (h.cancel t).2, hclear t⟩
  | cancelOne t =>
      rw [TimerService.step, Option.ite_none_right_eq_some, Option.some.injEq] at hs
      obtain ⟨-, rfl⟩ := hs
      obtain ⟨w', hcancel, hrest⟩ := h.cancelOne t
      exact ⟨w', hcancel, .of_sublist hrest⟩
  | expiresAt t expiryTime =>
      rw [TimerService.step, Option.ite_none_right_eq_some, Option.some.injEq] at hs
      obtain ⟨-, rfl⟩ := hs
      exact ⟨_, (h.expiresAt t expiryTime).2, hclear t⟩
  | expiresAfter now t expiryTime =>
      rw [TimerService.step, Option.ite_none_right_eq_some, Option.some.injEq] at hs
      obtain ⟨-, rfl⟩ := hs
      exact ⟨_, (h.expiresAt t _).2, hclear t⟩
  | asyncWait now t op =>
      rw [TimerService.step, Option.ite_none_right_eq_some, Option.some.injEq] at hs
      obtain ⟨hal, rfl⟩ := hs
      rcases Bool.eq_false_or_eq_true w.shutdown with hw | hw
      · exact ⟨_, h.asyncWait_closed hw now t op, .of_sublist fun u => .refl _⟩
      · refine ⟨_, h.asyncWait hw hal now op, fun u => ⟨u, ?_⟩⟩
        rw [Pending.schedule_waits, Function.update_apply]
        split
        · rename_i hut
          rw [hut]
          exact .refl _
        · exact List.sublist_append_left _ _
  | run now later =>
      rw [TimerService.step, Option.some.injEq] at hs
      obtain ⟨due, -, hrun⟩ := h.run now later
      exact ⟨_, hs ▸ hrun, .of_sublist fun u => Pending.after_waits_sublist now _ u⟩
  | shutdown =>
      rw [TimerService.step, Option.some.injEq] at hs
      obtain ⟨w', hw', hnone⟩ := h.shutdown
      exact ⟨w', hs ▸ hw', .of_sublist fun u => by simp [Pending.waits, hnone]⟩

theorem run_holds (es : List (Call τ ω)) (hr : timerService.run es = some s) :
    ∃ w, s.Holds w ∧ ∀ t, (w.pending.waits t).Sublist (es.flatMap Call.started) := by
  refine Machine.run_induction (M := timerService) (J := fun es s => ∃ w : Waits τ ω, s.Holds w ∧
    ∀ t, (w.pending.waits t).Sublist (es.flatMap Call.started)) ?_ ?_ hr
  · exact ⟨{}, ⟨Reactor.holds_initial, by simp⟩, fun t => List.nil_sublist _⟩
  · rintro es s c s' ⟨w, h, hstarted⟩ hs
    obtain ⟨w', h', horder⟩ := h.step hs
    refine ⟨w', h', fun t => ?_⟩
    obtain ⟨u, hu⟩ := horder t
    rw [List.flatMap_append, List.flatMap_singleton]
    exact hu.trans ((hstarted u).append_right _)

omit [DecidableEq ω] in
theorem Holds.nonempty (h : s.Holds w) {v : ℤ × List ω} (hv : w.pending t = some v) : v.2 ≠ [] := by
  rcases Bool.eq_false_or_eq_true w.shutdown with hw | hw
  · rw [(h.reactor.emptied hw).2] at hv
    cases hv
  · exact (h.reactor.stores hw).nonempty t v.1 v.2 hv

omit [DecidableEq ω] in
theorem Holds.queued (h : s.Holds w) : s.reactor.timerQueue.opQueue = w.pending.waits := by
  rcases Bool.eq_false_or_eq_true w.shutdown with hw | hw
  · obtain ⟨hempty, hnone⟩ := h.reactor.emptied hw
    funext t
    rw [hempty.queued, hnone]
    rfl
  · exact (h.reactor.stores hw).queued

/-- What waits in the queue for some time waits on a timer that exists, says that it expires at
this time, and knows that somebody waits. So cancelling is skipped only where the reactor had
nothing to cancel. -/
theorem timers_know_their_waits (es : List (Call τ ω)) (hr : timerService.run es = some s) :
    (∀ entry ∈ s.reactor.timerQueue.heap, s.alive entry.timer = true ∧
        s.impl entry.timer = ⟨entry.time, true⟩ ∧
        s.reactor.timerQueue.opQueue entry.timer ≠ []) ∧
      ∀ t, (s.impl t).mightHavePendingWaits = false → (s.reactor.cancelTimer t none).1 = 0 := by
  obtain ⟨w, h, -⟩ := run_holds es hr
  refine ⟨fun entry hin => ?_, fun t ht => ?_⟩
  · rcases Bool.eq_false_or_eq_true w.shutdown with hw | hw
    · rw [(h.reactor.emptied hw).1.heap] at hin
      cases hin
    · have hstores := h.reactor.stores hw
      have hexp := (hstores.heaped.mem entry).mp hin
      obtain ⟨v, hv, hve⟩ := Option.map_eq_some_iff.mp hexp
      obtain ⟨hal, himpl⟩ := h.coherent _ v.1 v.2 hv
      refine ⟨hal, himpl.trans (by rw [hve]), ?_⟩
      rw [h.queued, Pending.waits_of_some hv]
      exact h.nonempty hv
  · rw [h.reactor.cancelTimer_count, Pending.waits, h.of_not_flagged ht]
    rfl

/-- A timer with one wait is moved, and the wait is one on the new timer. -/
def movedWait : List (Call ℕ ℕ) :=
  [.construct 0, .expiresAfter 3 0 5, .asyncWait 3 0 7, .moveConstruct 1 0, .destroy 0]

theorem moved_wait_known : ∃ s, timerService.run movedWait = some s ∧
    s.reactor.timerQueue.heap = [⟨8, 1⟩] ∧ s.impl 1 = ⟨8, true⟩ := by
  have hrun : (timerService.run movedWait).map (fun s => s.reactor.timerQueue.heap) =
      some [⟨8, 1⟩] := by decide +kernel
  obtain ⟨s, hr, hheap⟩ := Option.map_eq_some_iff.mp hrun
  exact ⟨s, hr, hheap, ((timers_know_their_waits movedWait hr).1 ⟨8, 1⟩ (by simp [hheap])).2.1⟩

/-- However often the waits on a timer were moved, they stand in the order in which they were
started. -/
theorem opQueue_sublist_started (es : List (Call τ ω)) (hr : timerService.run es = some s) (t : τ) :
    (s.reactor.timerQueue.opQueue t).Sublist (es.flatMap Call.started) := by
  obtain ⟨w, h, hstarted⟩ := run_holds es hr
  rw [h.queued]
  exact hstarted t

/-- The reactor ends exactly the waits on the timers whose expiry has passed, those of an earlier
expiry first and those on one timer in the order in which they were started. -/
theorem reactor_ends_expired_timers (es : List (Call τ ω)) (hr : timerService.run es = some s)
    (now later : ℤ) : ∃ due : List τ, due.Nodup ∧
      due.Pairwise (fun a b => (s.impl a).expiry ≤ (s.impl b).expiry) ∧
      (∀ t, t ∈ due ↔ s.reactor.timerQueue.opQueue t ≠ [] ∧ (s.impl t).expiry ≤ now) ∧
      (∀ t ∈ due, (s.reactor.timerQueue.opQueue t).Sublist (es.flatMap Call.started)) ∧
      (s.reactor.run now later).completed = s.reactor.completed ++
        (due.flatMap s.reactor.timerQueue.opQueue).map fun op => (op, .expired) := by
  obtain ⟨w, h, -⟩ := run_holds es hr
  obtain ⟨due, hdue, hrun⟩ := h.run now later
  have himpl : ∀ entry ∈ due, (s.impl entry.timer).expiry = entry.time := by
    intro entry hin
    obtain ⟨v, hv, hve⟩ := Option.map_eq_some_iff.mp ((hdue.mem entry).mp hin).1
    rw [(h.coherent _ v.1 v.2 hv).2, hve]
  refine ⟨due.map HeapEntry.timer, hdue.nodup, ?_, fun t => ?_,
    fun t _ => opQueue_sublist_started es hr t, ?_⟩
  · rw [List.pairwise_map]
    refine hdue.sorted.imp_of_mem fun ha hb hle => ?_
    rwa [himpl _ ha, himpl _ hb]
  · rw [hdue.mem_map, h.queued]
    cases hp : w.pending t with
    | none => simp [Pending.waits, hp]
    | some v =>
        have hne := h.nonempty hp
        rw [(h.coherent t v.1 v.2 hp).2]
        simp [Pending.waits, Pending.after, hp, hne, Option.filter]
  · rw [hrun.reactor.completed, h.reactor.completed, List.flatMap_map, h.queued]
    rfl

theorem moved_wait_ends : ∃ s, timerService.run movedWait = some s ∧
    ∃ due : List ℕ, (∀ t, t ∈ due ↔ s.reactor.timerQueue.opQueue t ≠ [] ∧ (s.impl t).expiry ≤ 8) ∧
      (s.reactor.run 8 8).completed = (due.flatMap s.reactor.timerQueue.opQueue).map
        fun op => (op, .expired) := by
  have hrun : (timerService.run movedWait).map (fun s => s.reactor.completed) = some [] := by
    decide +kernel
  obtain ⟨s, hr, hempty⟩ := Option.map_eq_some_iff.mp hrun
  obtain ⟨due, -, -, hmem, -, hout⟩ := reactor_ends_expired_timers movedWait hr 8 8
  rw [hempty, List.nil_append] at hout
  exact ⟨s, hr, due, hmem, hout⟩

end TimerService

end AsioSamples.Asio
