import AsioSamples.Asio.SchedulerAccounts
import AsioSamples.Asio.SchedulerWakeups

/-!
# When `run` returns

A program that leaves it to the scheduler to stop, and starts work outside of its handlers only
while no thread runs the scheduler, gets back from `run` when everything has been done.
-/

namespace AsioSamples.Asio

open Framework

variable {ι ω : Type}

namespace Place

def isStopping : Place ω → Bool
  | .stopping _ => true
  | _ => false

/-- The thread is in a function that runs handlers, or is about to stop the scheduler. -/
def active : Place ω → Bool
  | .outside => false
  | .pushing _ next => next.active
  | _ => true

theorem active_wake (p : Place ω) : p.wake.active = p.active := by cases p <;> rfl

theorem isStopping_wake (p : Place ω) : p.wake.isStopping = p.isStopping := by cases p <;> rfl

theorem not_stopping_of_resumes {p : Place ω} (h : p.resumes = true) : p.isStopping = false := by
  cases p with
  | stopping next => cases h
  | _ => rfl

end Place

namespace Scheduler

section Moves

variable [DecidableEq ι] {s s' s'' : Scheduler ι ω} {t : ι} {m : Mode} {oneThread : Bool}

/-- One thread goes on, and neither stops the scheduler nor will. -/
structure Moves (t : ι) (s s' : Scheduler ι ω) : Prop where
  others : ∀ u, u ≠ t → (s'.threads u).place = (s.threads u).place
  self : (s'.threads t).place.isStopping = false
  stopped : s'.stopped = s.stopped
  outstandingWork : s'.outstandingWork = s.outstandingWork

omit [DecidableEq ι] in
theorem Moves.trans (h : Moves t s s') (h' : Moves t s' s'') : Moves t s s'' where
  others u hu := (h'.others u hu).trans (h.others u hu)
  self := h'.self
  stopped := h'.stopped.trans h.stopped
  outstandingWork := h'.outstandingWork.trans h.outstandingWork

theorem Moves.of_update {thread : Thread ω}
    (hthreads : s'.threads = Function.update s.threads t thread)
    (h : thread.place.isStopping = false) (hstopped : s'.stopped = s.stopped)
    (hwork : s'.outstandingWork = s.outstandingWork) : Moves t s s' where
  others u hu := by rw [hthreads, Function.update_of_ne hu]
  self := by rwa [hthreads, Function.update_self]
  stopped := hstopped
  outstandingWork := hwork

theorem unlockAndSignalOne_moves (h : (s.threads t).place.isStopping = false) :
    Moves t s (s.unlockAndSignalOne t) := by
  unfold unlockAndSignalOne
  dsimp only
  split
  · exact .of_update rfl h rfl rfl
  · exact ⟨fun _ _ => rfl, h, rfl, rfl⟩

theorem wakeOneThreadAndUnlock_moves (h : (s.threads t).place.isStopping = false) :
    Moves t s (s.wakeOneThreadAndUnlock t) := by
  have hmoves := unlockAndSignalOne_moves h
  unfold wakeOneThreadAndUnlock interruptTask
  dsimp only
  split
  · exact hmoves
  · split
    · exact ⟨hmoves.others, hmoves.self, hmoves.stopped, hmoves.outstandingWork⟩
    · exact hmoves

theorem leave_moves : Moves t s (s.leave t) := .of_update rfl rfl rfl rfl

theorem execute_moves {o : Operation ω} {rest : List (Entry ω)} :
    Moves t s (s.execute oneThread t m o rest) := by
  have hcomplete : Moves t s (complete t m { s with opQueue := rest } o) := by
    cases o with
    | descriptorState => exact .of_update rfl rfl rfl rfl
    | handler op => exact .of_update rfl rfl rfl rfl
  unfold execute
  dsimp only
  split
  · exact hcomplete.trans (wakeOneThreadAndUnlock_moves hcomplete.self)
  · exact hcomplete

theorem doRunOne_moves : Moves t s (s.doRunOne oneThread t m) := by
  unfold doRunOne
  split
  · exact leave_moves
  · split
    · exact .of_update rfl rfl rfl rfl
    · rename_i rest hqueue
      have htaken : Moves t s (go t (.inTask m !(!rest.isEmpty))
          { s with opQueue := rest, taskInterrupted := !rest.isEmpty }) :=
        .of_update rfl rfl rfl rfl
      dsimp only
      split
      · exact htaken.trans (unlockAndSignalOne_moves htaken.self)
      · exact htaken
    · exact execute_moves

theorem doPollOne_moves : Moves t s (s.doPollOne oneThread t m) := by
  unfold doPollOne
  split
  · exact leave_moves
  · split
    · exact leave_moves
    · exact .of_update rfl rfl rfl rfl
    · exact execute_moves

theorem pollAfterTask_moves : Moves t s (s.pollAfterTask oneThread t m) := by
  unfold pollAfterTask
  split
  · exact leave_moves
  · exact leave_moves.trans (unlockAndSignalOne_moves leave_moves.self)
  · exact execute_moves

theorem doOne_moves : Moves t s (s.doOne oneThread t m) := by
  unfold doOne
  split
  · exact doPollOne_moves
  · exact doRunOne_moves

theorem afterTask_moves : Moves t s (s.afterTask oneThread t m) := by
  unfold afterTask
  split
  · exact pollAfterTask_moves
  · exact doRunOne_moves

theorem unwind_moves {threw : Bool} : Moves t s (s.unwind oneThread t m threw) := by
  have hpushed : Moves t s (s.pushPrivate t m []) := .of_update rfl rfl rfl rfl
  unfold unwind
  dsimp only
  split
  · exact hpushed.trans leave_moves
  · split
    · exact hpushed
    · exact hpushed.trans doOne_moves

variable (oneThread) in
theorem postDeferredCompletions_moves (h : (s.threads t).place.isStopping = false)
    (ops : List ω) : Moves t s (s.postDeferredCompletions oneThread t ops) := by
  unfold postDeferredCompletions
  dsimp only
  split
  · exact ⟨fun _ _ => rfl, h, rfl, rfl⟩
  · split
    · exact .of_update rfl h rfl rfl
    · exact .of_update rfl rfl rfl rfl

variable (oneThread) in
theorem postDeferredCompletions_place (ops : List ω) :
    ((s.postDeferredCompletions oneThread t ops).threads t).place = (s.threads t).place ∨
      ((s.postDeferredCompletions oneThread t ops).threads t).place =
        .pushing ops (s.threads t).place := by
  unfold postDeferredCompletions
  dsimp only
  split
  · exact .inl rfl
  · split
    · exact .inl (by rw [setThread_self])
    · exact .inr (by rw [go, setThread_self])

variable (oneThread) in
theorem postImmediateCompletions_place (ops : List ω) (isContinuation : Bool) :
    ((s.postImmediateCompletions oneThread t ops isContinuation).threads t).place =
        (s.threads t).place ∨
      ((s.postImmediateCompletions oneThread t ops isContinuation).threads t).place =
        .pushing ops (s.threads t).place := by
  unfold postImmediateCompletions
  dsimp only
  split
  · exact .inl (by rw [setThread_self])
  · exact .inr (by rw [go, setThread_self])

theorem doComplete_moves [DecidableEq ω] (ops : List ω) :
    Moves t s (s.doComplete oneThread t m ops) := by
  unfold doComplete
  cases ops with
  | nil => exact .of_update rfl rfl rfl rfl
  | cons op rest =>
      have hrunning : Moves t s (go t (.running m (some op)) { s with
          reactorOps := s.reactorOps - ((op :: rest : List ω) : Multiset ω)
          invoked := s.invoked ++ [op] }) := .of_update rfl rfl rfl rfl
      exact hrunning.trans (postDeferredCompletions_moves oneThread hrunning.self rest)

end Moves

section Returns

variable [DecidableEq ι] [DecidableEq ω] [Fintype ι] {s s' : Scheduler ι ω} {t : ι} {m : Mode}
  {oneThread : Bool}

/-- The scheduler is stopped, or will be, while a thread has yet to notice. -/
def Ending (s : Scheduler ι ω) : Prop :=
  (∃ u, (s.threads u).place.active = true) ∧
    (s.stopped = true ∨ ∃ u, (s.threads u).place.isStopping = true)

/-- What a program may do that gets everything done by `run`. It leaves it to the scheduler to
stop, calls `restart` before it runs a stopped one, and starts work outside of the handlers only
while no thread runs the scheduler. -/
def Orderly (s : Scheduler ι ω) : Event ι ω → Prop
  | .call _ _ => s.stopped = false
  | .post t _ _ | .dispatch t _ | .startOp t _ | .workStarted t =>
      (s.threads t).place = .outside → ∀ u, (s.threads u).place.active = false
  | .stop _ => False
  | _ => True

instance decidableOrderly (s : Scheduler ι ω) : ∀ e, Decidable (s.Orderly e)
  | .call _ _ => inferInstanceAs (Decidable (_ = _))
  | .post _ _ _ | .dispatch _ _ | .startOp _ _ | .workStarted _ =>
      inferInstanceAs (Decidable (_ → ∀ _, _ = _))
  | .stop _ => isFalse id
  | .look _ | .spurious _ | .wake _ | .runTask _ _ | .performIo _ _ | .finish _ _ | .unwind _
  | .push _ | .halt _ | .cancelOps _ _ | .workFinished _ | .restart _ | .initTask _
  | .signal _ _ => isTrue trivial

def Drained (s : Scheduler ι ω) : Prop := s.Ending → s.outstandingWork = 0

omit [DecidableEq ω] [DecidableEq ι] [Fintype ι] in
theorem Drained.moves (hD : s.Drained) (hM : Moves t s s')
    (hactive : (s'.threads t).place.active = true → (s.threads t).place.active = true) :
    s'.Drained := by
  rintro ⟨⟨u, hu⟩, hend⟩
  rw [hM.outstandingWork]
  refine hD ⟨⟨u, ?_⟩, hend.imp (fun hs => hM.stopped ▸ hs) fun ⟨v, hv⟩ => ⟨v, ?_⟩⟩
  · by_cases hut : u = t
    · rw [hut] at hu ⊢
      exact hactive hu
    · rwa [hM.others u hut] at hu
  · have hvt : v ≠ t := by
      rintro rfl
      rw [hM.self] at hv
      cases hv
    rwa [hM.others v hvt] at hv

omit [DecidableEq ω] [DecidableEq ι] [Fintype ι] in
/-- A thread that does work keeps the scheduler from ending until the work is done. -/
theorem Drained.of_work (hD : s.Drained) (hactive : ∃ u, (s.threads u).place.active = true)
    (hwork : s.outstandingWork ≠ 0) (hstopped : s'.stopped = s.stopped)
    (hstopping : (∃ u, (s'.threads u).place.isStopping = true) →
      (∃ u, (s.threads u).place.isStopping = true) ∨ s'.outstandingWork = 0) : s'.Drained := by
  rintro ⟨-, hs | hu⟩
  · exact absurd (hD ⟨hactive, .inl (hstopped ▸ hs)⟩) hwork
  · exact (hstopping hu).elim (fun h => absurd (hD ⟨hactive, .inr h⟩) hwork) id

omit [DecidableEq ω] [Fintype ι] in
theorem workFinished_stopping :
    (∃ u, ((s.workFinished t).threads u).place.isStopping = true) →
      (∃ u, (s.threads u).place.isStopping = true) ∨ (s.workFinished t).outstandingWork = 0 := by
  unfold workFinished
  dsimp only
  split
  · exact fun _ => .inr ‹_›
  · exact .inl

omit [DecidableEq ω] [Fintype ι] in
theorem workFinished_stopped : (s.workFinished t).stopped = s.stopped := by
  unfold workFinished
  dsimp only
  split <;> rfl

omit [DecidableEq ω] in
theorem Drained.finish (hD : s.Drained) (hB : s.Books) {op : Option ω}
    (hplace : (s.threads t).place = .running m op) (threw : Bool) :
    (s.finish t m threw).Drained := by
  have htidy := hB.tidy t
  rw [Thread.Tidy, hplace] at htidy
  cases op with
  | none =>
      refine hD.moves ?_ fun _ => by rw [hplace]; rfl
      unfold Scheduler.finish
      simp only [htidy.1]
      exact .of_update rfl rfl rfl rfl
  | some op =>
      have hwork : s.outstandingWork ≠ 0 := by
        intro hzero
        have hhandles := (hB.outstandingWork_eq_zero_iff.mp hzero).2.2 t
        rw [hplace] at hhandles
        cases hhandles
      have hunwinding : ∀ u, ((setThread t { s.threads t with
          place := .unwinding m threw, privateOutstandingWork := 0 } s).threads u).place.isStopping
            = true → (s.threads u).place.isStopping = true := by
        intro u hu
        by_cases hut : u = t
        · rw [hut, setThread_self] at hu
          cases hu
        · rwa [setThread_of_ne hut] at hu
      apply hD.of_work ⟨t, by rw [hplace]; rfl⟩ hwork
      · unfold Scheduler.finish
        dsimp only
        split
        · rfl
        · split
          · exact workFinished_stopped
          · rfl
      · unfold Scheduler.finish
        dsimp only
        split
        · exact fun h => .inl (h.imp hunwinding)
        · split
          · exact fun h => (workFinished_stopping h).imp_left fun h => h.imp hunwinding
          · exact fun h => .inl (h.imp hunwinding)

theorem Drained.goOn (hD : s.Drained) (hB : s.Books) {e : Event ι ω}
    (hs : s.goOn oneThread e = some s') : s'.Drained := by
  cases e with
  | look t =>
      simp only [Scheduler.goOn] at hs
      split at hs
      · rename_i m hplace
        exact Option.some.inj hs ▸ hD.moves doOne_moves (fun _ => by rw [hplace]; rfl)
      · cases hs
  | spurious t =>
      simp only [Scheduler.goOn] at hs
      split at hs
      · rename_i m hplace
        exact Option.some.inj hs ▸ hD.moves (.of_update rfl rfl rfl rfl)
          (fun _ => by rw [hplace]; rfl)
      · cases hs
  | wake t =>
      simp only [Scheduler.goOn] at hs
      split at hs
      · rename_i m hplace
        split at hs
        · have hentering : Moves t s (go t (.entering m) { s with waiters := s.waiters - 1 }) :=
            .of_update rfl rfl rfl rfl
          exact Option.some.inj hs ▸ hD.moves (hentering.trans doRunOne_moves)
            (fun _ => by rw [hplace]; rfl)
        · exact Option.some.inj hs ▸ hD.moves (.of_update rfl rfl rfl rfl)
            (fun _ => by rw [hplace]; rfl)
      · cases hs
  | runTask t ready =>
      simp only [Scheduler.goOn] at hs
      split at hs
      · rename_i m blocks hplace
        split at hs
        · have hwork : (s.threads t).privateOutstandingWork = 0 := by
            have htidy := hB.tidy t
            rw [Thread.Tidy, hplace] at htidy
            exact htidy.1
          have hrun : Moves t s (runTask t m ready { s with
              reactorOps := s.reactorOps -
                (ready.filterMap Operation.handler? : Multiset ω) }) := by
            refine .of_update (runTask_threads ..) rfl rfl ?_
            simp [runTask, pushPrivate, setThread, hwork]
          exact Option.some.inj hs ▸ hD.moves (hrun.trans afterTask_moves)
            (fun _ => by rw [hplace]; rfl)
        · cases hs
      · cases hs
  | performIo t ops =>
      simp only [Scheduler.goOn] at hs
      split at hs
      · rename_i m hplace
        split at hs
        · exact Option.some.inj hs ▸ hD.moves (doComplete_moves ops) (fun _ => by rw [hplace]; rfl)
        · cases hs
      · cases hs
  | finish t threw =>
      simp only [Scheduler.goOn] at hs
      split at hs
      · rename_i m op hplace
        split at hs
        · cases hs
        · exact Option.some.inj hs ▸ hD.finish hB hplace threw
      · cases hs
  | unwind t =>
      simp only [Scheduler.goOn] at hs
      split at hs
      · rename_i m threw hplace
        exact Option.some.inj hs ▸ hD.moves unwind_moves (fun _ => by rw [hplace]; rfl)
      · cases hs
  | push t =>
      simp only [Scheduler.goOn] at hs
      split at hs
      · rename_i ops next hplace
        have htidy := hB.tidy t
        rw [Thread.Tidy, hplace] at htidy
        have hpushed : Moves t s (go t next { s with
            opQueue := s.opQueue ++ ops.map fun op => .operation (.handler op) }) :=
          .of_update rfl (Place.not_stopping_of_resumes htidy.1) rfl rfl
        refine Option.some.inj hs ▸
          hD.moves (hpushed.trans (wakeOneThreadAndUnlock_moves hpushed.self)) fun h => ?_
        rw [wakeOneThreadAndUnlock_place, go, setThread_self] at h
        rw [hplace]
        exact h
      · cases hs
  | halt t =>
      simp only [Scheduler.goOn] at hs
      split at hs
      · rename_i next hplace
        have hzero : s.outstandingWork = 0 :=
          hD ⟨⟨t, by rw [hplace]; rfl⟩, .inr ⟨t, by rw [hplace]; rfl⟩⟩
        rw [← Option.some.inj hs]
        intro _
        unfold stopAllThreads interruptTask
        split <;> exact hzero
      · cases hs
  | _ => cases hs

omit [DecidableEq ω] in
/-- Work is started by a handler, or while no thread runs the scheduler. -/
theorem Drained.starts (hD : s.Drained) (hB : s.Books)
    (hprogram : (s.threads t).place.inProgram = true)
    (horderly : (s.threads t).place = .outside → ∀ u, (s.threads u).place.active = false)
    (hothers : ∀ u, u ≠ t → (s'.threads u).place = (s.threads u).place)
    (hself : (s'.threads t).place = (s.threads t).place ∨
      ∃ ops, (s'.threads t).place = .pushing ops (s.threads t).place)
    (hstopped : s'.stopped = s.stopped) : s'.Drained := by
  cases hplace : (s.threads t).place with
  | outside =>
      have hidle := horderly hplace
      rintro ⟨⟨u, hu⟩, -⟩
      by_cases hut : u = t
      · rw [hut] at hu
        rcases hself with h | ⟨ops, h⟩
        · rw [h, hplace] at hu
          cases hu
        · rw [h, hplace] at hu
          cases hu
      · rw [hothers u hut, hidle u] at hu
        cases hu
  | running m op =>
      cases op with
      | none =>
          rw [hplace] at hprogram
          cases hprogram
      | some op =>
          apply hD.of_work ⟨t, by rw [hplace]; rfl⟩ ?_ hstopped
          · rintro ⟨u, hu⟩
            refine .inl ⟨u, ?_⟩
            by_cases hut : u = t
            · rw [hut] at hu
              rcases hself with h | ⟨ops, h⟩
              · rw [h, hplace] at hu
                cases hu
              · rw [h] at hu
                cases hu
            · rwa [hothers u hut] at hu
          · intro hzero
            have hhandles := (hB.outstandingWork_eq_zero_iff.mp hzero).2.2 t
            rw [hplace] at hhandles
            cases hhandles
  | _ =>
      rw [hplace] at hprogram
      cases hprogram

theorem Drained.act (hD : s.Drained) (hB : s.Books) {e : Event ι ω} (horderly : s.Orderly e)
    (hprogram : (s.threads e.thread).place.inProgram = true)
    (hs : s.act oneThread e = some s') : s'.Drained := by
  have hresumes := Place.resumes_of_inProgram hprogram
  cases e with
  | call t m =>
      simp only [Scheduler.act] at hs
      split at hs
      · rw [← Option.some.inj hs]
        by_cases hwork : s.outstandingWork = 0
        · exact fun _ => hwork
        · rintro ⟨-, hstopped | ⟨u, hu⟩⟩
          · have hopen : s.stopped = false := horderly
            exact absurd (hopen.symm.trans hstopped) Bool.false_ne_true
          · by_cases hut : u = t
            · rw [hut, go, setThread_self, if_neg hwork] at hu
              cases hu
            · rw [go, setThread_of_ne hut] at hu
              refine hD ⟨⟨u, ?_⟩, .inr ⟨u, hu⟩⟩
              cases hp : (s.threads u).place with
              | stopping next => rfl
              | _ =>
                  rw [hp] at hu
                  cases hu
      · cases hs
  | post t ops isContinuation =>
      rw [← Option.some.inj hs]
      refine hD.starts (t := t) hB hprogram horderly (fun u hu => ?_) ?_ ?_
      · unfold postImmediateCompletions
        dsimp only
        split
        · rw [setThread_of_ne hu]
        · rw [go, setThread_of_ne hu]
      · exact (postImmediateCompletions_place oneThread ops isContinuation).imp_right
          fun h => ⟨ops, h⟩
      · unfold postImmediateCompletions
        dsimp only
        split <;> rfl
  | dispatch t op =>
      rw [← Option.some.inj hs]
      refine hD.starts (t := t) hB hprogram horderly (fun u hu => ?_) (.inr ⟨[op], ?_⟩) rfl
      · rw [go, setThread_of_ne hu]
      · rw [go, setThread_self]
  | startOp t op =>
      exact Option.some.inj hs ▸
        hD.starts (t := t) hB hprogram horderly (fun _ _ => rfl) (.inl rfl) rfl
  | cancelOps t ops =>
      simp only [Scheduler.act] at hs
      split at hs
      · rw [← Option.some.inj hs]
        have hposted := postDeferredCompletions_moves oneThread
          (s := { s with reactorOps := s.reactorOps - (ops : Multiset ω) })
          (Place.not_stopping_of_resumes hresumes) ops
        refine hD.moves (t := t)
          ⟨hposted.others, hposted.self, hposted.stopped, hposted.outstandingWork⟩ fun h => ?_
        rcases postDeferredCompletions_place oneThread (t := t)
          (s := { s with reactorOps := s.reactorOps - (ops : Multiset ω) }) ops with hp | hp
        · rwa [hp] at h
        · rwa [hp] at h
      · cases hs
  | workStarted t =>
      exact Option.some.inj hs ▸
        hD.starts (t := t) hB hprogram horderly (fun _ _ => rfl) (.inl rfl) rfl
  | workFinished t =>
      simp only [Scheduler.act] at hs
      split at hs
      · rename_i hguards
        rw [← Option.some.inj hs]
        unfold workFinished
        dsimp only
        split
        · exact fun _ => ‹_›
        · intro hend
          have hzero := hB.outstandingWork_eq_zero_iff.mp (hD hend)
          omega
      · cases hs
  | stop t => exact absurd horderly id
  | restart t =>
      rw [← Option.some.inj hs]
      rintro ⟨hactive, hfalse | hstopping⟩
      · cases hfalse
      · exact hD ⟨hactive, .inr hstopping⟩
  | initTask t =>
      simp only [Scheduler.act, Option.some.injEq] at hs
      rw [← hs]
      split
      · exact hD
      · have hmoves := wakeOneThreadAndUnlock_moves (t := t)
          (s := { s with task := true, opQueue := s.opQueue ++ [.task] })
          (Place.not_stopping_of_resumes hresumes)
        refine hD.moves ⟨hmoves.others, hmoves.self, hmoves.stopped, hmoves.outstandingWork⟩
          fun h => ?_
        rwa [wakeOneThreadAndUnlock_place] at h
  | finish t threw =>
      simp only [Scheduler.act] at hs
      exact hD.goOn hB hs
  | _ => cases hs

omit [DecidableEq ω] in
/-- `pthread_cond_signal` does no more than wake a thread. -/
theorem signal_place {woken : Option ι} (hs : s.signal t woken = some s') (u : ι) :
    (s'.threads u).place = (s.threads u).place ∨
      (s'.threads u).place = (s.threads u).place.wake := by
  have hquiet : ∀ v, ((setThread t { s.threads t with signalling := false } s).threads v).place =
      (s.threads v).place := by
    intro v
    by_cases hv : v = t
    · rw [hv, setThread_self]
    · rw [setThread_of_ne hv]
  unfold Scheduler.signal at hs
  cases woken with
  | none =>
      dsimp only at hs
      split at hs
      · exact .inl (Option.some.inj hs ▸ hquiet u)
      · cases hs
  | some v =>
      dsimp only at hs
      split at hs
      · rw [← Option.some.inj hs]
        by_cases hu : u = v
        · rw [hu, go, setThread_self, hquiet]
          exact .inr rfl
        · rw [go, setThread_of_ne hu]
          exact .inl (hquiet u)
      · cases hs

omit [DecidableEq ω] in
theorem Drained.signal (hD : s.Drained) {woken : Option ι} (hs : s.signal t woken = some s') :
    s'.Drained := by
  have hplace := signal_place hs
  have hsame : s'.stopped = s.stopped ∧ s'.outstandingWork = s.outstandingWork := by
    unfold Scheduler.signal at hs
    cases woken with
    | none =>
        dsimp only at hs
        split at hs
        · exact Option.some.inj hs ▸ ⟨rfl, rfl⟩
        · cases hs
    | some v =>
        dsimp only at hs
        split at hs
        · exact Option.some.inj hs ▸ ⟨rfl, rfl⟩
        · cases hs
  rintro ⟨⟨u, hu⟩, hend⟩
  rw [hsame.2]
  refine hD ⟨⟨u, ?_⟩, hend.imp (fun h => hsame.1 ▸ h) fun ⟨v, hv⟩ => ⟨v, ?_⟩⟩
  · rcases hplace u with h | h
    · rwa [h] at hu
    · rwa [h, Place.active_wake] at hu
  · rcases hplace v with h | h
    · rwa [h] at hv
    · rwa [h, Place.isStopping_wake] at hv

theorem Drained.step (hD : s.Drained) (hB : s.Books) {e : Event ι ω} (horderly : s.Orderly e)
    (hs : s.step oneThread e = some s') : s'.Drained := by
  unfold Scheduler.step at hs
  split at hs
  · split at hs
    · exact hD.signal hs
    · cases hs
  · split at hs
    · rename_i hprogram
      exact hD.act hB horderly hprogram hs
    · exact hD.goOn hB hs

end Returns

end Scheduler

end AsioSamples.Asio
