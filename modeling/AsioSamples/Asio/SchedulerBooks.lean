import AsioSamples.Asio.Scheduler
import AsioSamples.Framework.Threads

/-!
# The books of the scheduler

Every operation that was started is in one place until its handler is called, and
`outstanding_work_` counts the operations, with the private counts of the threads.
-/

namespace AsioSamples.Asio

open Framework

variable {ι ω : Type}

namespace Place

/-- A handler, or what stands for one, is not yet accounted for by `work_cleanup`. -/
@[simp] def busy : Place ω → ℕ
  | .running _ _ => 1
  | .pushing _ next => next.busy
  | .stopping next => next.busy
  | _ => 0

@[simp] def pushed : Place ω → List ω
  | .pushing ops next => ops ++ next.pushed
  | .stopping next => next.pushed
  | _ => []

/-- The thread counts as a waiter of the event. -/
@[simp] def waits : Place ω → ℕ
  | .blocked _ => 1
  | .woken _ => 1
  | .pushing _ next => next.waits
  | .stopping next => next.waits
  | _ => 0

@[simp] def tasks : Place ω → ℕ
  | .inTask _ _ => 1
  | .pushing _ next => next.tasks
  | .stopping next => next.tasks
  | _ => 0

/-- Where a thread can be once a function of the scheduler has returned, or `stop` has. -/
@[simp] def resumes : Place ω → Bool
  | .outside => true
  | .running _ _ => true
  | .unwinding _ _ => true
  | _ => false

theorem resumes_of_inProgram {p : Place ω} (h : p.inProgram = true) : p.resumes = true := by
  cases p with
  | outside => rfl
  | running m op => rfl
  | _ => cases h

/-- What the `thread_info` may hold in this place. Work that is counted there is for operations
that are there too, or stands for an operation that is not there. -/
@[simp] def Allows (privateOpQueue : List (Operation ω)) (work : ℕ) : Place ω → Prop
  | .running _ (some _) => work ≤ (privateOpQueue.filterMap Operation.handler?).length
  | .running _ none => work = 1 ∧ privateOpQueue = []
  | .unwinding _ _ => work = 0
  | .pushing _ next => next.resumes = true ∧ next.Allows privateOpQueue work
  | .stopping next => next.resumes = true ∧ next.Allows privateOpQueue work
  | _ => work = 0 ∧ privateOpQueue = []

@[simp] theorem busy_wake (p : Place ω) : p.wake.busy = p.busy := by cases p <;> rfl

@[simp] theorem pushed_wake (p : Place ω) : p.wake.pushed = p.pushed := by cases p <;> rfl

@[simp] theorem waits_wake (p : Place ω) : p.wake.waits = p.waits := by cases p <;> rfl

@[simp] theorem tasks_wake (p : Place ω) : p.wake.tasks = p.tasks := by cases p <;> rfl

@[simp] theorem allows_wake (p : Place ω) (q : List (Operation ω)) (work : ℕ) :
    p.wake.Allows q work ↔ p.Allows q work := by cases p <;> exact Iff.rfl

end Place

namespace Entry

@[simp] def op? : Entry ω → Option ω
  | .task => none
  | .operation o => o.handler?

@[simp] def isTask : Entry ω → Bool
  | .task => true
  | .operation _ => false

@[simp] theorem isTask_comp_operation : @isTask ω ∘ Entry.operation = fun _ => false := rfl

@[simp] theorem op?_comp_operation : @op? ω ∘ Entry.operation = Operation.handler? := rfl

end Entry

@[simp] theorem Operation.handler?_handler (op : ω) : (Operation.handler op).handler? = some op :=
  rfl

@[simp] theorem Operation.handler?_comp_handler : @Operation.handler? ω ∘ .handler = some := rfl

namespace Thread

def ops (thread : Thread ω) : List ω := thread.privateOpQueue.filterMap Operation.handler?

def Tidy (thread : Thread ω) : Prop :=
  thread.place.Allows thread.privateOpQueue thread.privateOutstandingWork

end Thread

namespace Scheduler

section Books

variable [DecidableEq ω]

def queued (s : Scheduler ι ω) : List ω := s.opQueue.filterMap Entry.op?

/-- How often the operation was invoked, is in the queue or in the reactor, or is with the
thread. -/
def copies (s : Scheduler ι ω) (thread : Thread ω) (a : ω) : ℕ :=
  s.invoked.count a + s.queued.count a + s.reactorOps.count a +
    thread.place.pushed.count a + thread.ops.count a

def balance (s : Scheduler ι ω) (thread : Thread ω) : ℤ :=
  s.outstandingWork + thread.privateOutstandingWork - s.started.length + s.invoked.length -
    thread.place.busy - s.guards

structure Books [Fintype ι] (s : Scheduler ι ω) : Prop where
  located : (s.started : Multiset ω) = s.invoked + s.queued + s.reactorOps +
    ∑ t, ((s.threads t).place.pushed + (s.threads t).ops : Multiset ω)
  work : s.outstandingWork + (∑ t, (s.threads t).privateOutstandingWork : ℕ) =
    s.started.length - s.invoked.length + s.guards + (∑ t, (s.threads t).place.busy : ℕ)
  waiters : s.waiters = ∑ t, (s.threads t).place.waits
  tasks : s.opQueue.countP Entry.isTask + ∑ t, (s.threads t).place.tasks = s.task.toNat
  tidy : ∀ t, (s.threads t).Tidy

variable [DecidableEq ι] [Fintype ι] {s s' : Scheduler ι ω} {t : ι} {thread : Thread ω}

/-- One thread moves. -/
theorem Books.update (hB : s.Books) (t : ι) (thread : Thread ω)
    (hthreads : s'.threads = Function.update s.threads t thread)
    (hcopies : ∀ a, s'.started.count a + s.copies (s.threads t) a =
      s.started.count a + s'.copies thread a)
    (hwork : s'.balance thread = s.balance (s.threads t))
    (hwaiters : s'.waiters + (s.threads t).place.waits = s.waiters + thread.place.waits)
    (htasks : s'.opQueue.countP Entry.isTask + thread.place.tasks + s.task.toNat =
      s.opQueue.countP Entry.isTask + (s.threads t).place.tasks + s'.task.toNat)
    (htidy : thread.Tidy) : s'.Books := by
  constructor
  · rw [hthreads]
    ext a
    have hsum := congrArg (Multiset.count a) (sum_update_add
      (fun th : Thread ω => (th.place.pushed + th.ops : Multiset ω)) s.threads t thread)
    have hold := congrArg (Multiset.count a) hB.located
    have ha := hcopies a
    simp only [Multiset.count_add, Multiset.coe_count, Scheduler.copies] at hsum hold ha ⊢
    omega
  · have hprivate := sum_update_add (fun th : Thread ω => th.privateOutstandingWork) s.threads t
      thread
    have hbusy := sum_update_add (fun th : Thread ω => th.place.busy) s.threads t thread
    have hold := hB.work
    simp only [balance] at hwork
    rw [hthreads]
    omega
  · have hsum := sum_update_add (fun th : Thread ω => th.place.waits) s.threads t thread
    have hold := hB.waiters
    rw [hthreads]
    omega
  · have hsum := sum_update_add (fun th : Thread ω => th.place.tasks) s.threads t thread
    have hold := hB.tasks
    rw [hthreads]
    omega
  · intro u
    rw [hthreads]
    by_cases hu : u = t
    · rw [hu, Function.update_self]
      exact htidy
    · rw [Function.update_of_ne hu]
      exact hB.tidy u

/-- A thread moves to a place that accounts for the same. -/
theorem Books.moves (hB : s.Books) {place : Place ω}
    (hpushed : place.pushed = (s.threads t).place.pushed)
    (hbusy : place.busy = (s.threads t).place.busy)
    (hwaits : place.waits = (s.threads t).place.waits)
    (htasks : place.tasks = (s.threads t).place.tasks)
    (htidy : place.Allows (s.threads t).privateOpQueue (s.threads t).privateOutstandingWork) :
    (s.go t place).Books := by
  refine hB.update t _ rfl (fun a => ?_) ?_ ?_ ?_ htidy
  · simp [copies, queued, Thread.ops, hpushed, go, setThread]
  · simp [balance, hbusy, go, setThread]
  · simp [hwaits, go, setThread]
  · simp [htasks, go, setThread]

theorem Books.unlockAndSignalOne (hB : s.Books) : (s.unlockAndSignalOne t).Books := by
  unfold Scheduler.unlockAndSignalOne
  by_cases h : 0 < s.waiters
  · rw [if_pos h]
    exact hB.update t _ rfl (fun _ => rfl) rfl rfl rfl (hB.tidy t)
  · rw [if_neg h]
    exact ⟨hB.located, hB.work, hB.waiters, hB.tasks, hB.tidy⟩

omit [DecidableEq ω] [DecidableEq ι] in
theorem Books.interruptTask (hB : s.Books) : s.interruptTask.Books := by
  unfold Scheduler.interruptTask
  split
  · exact ⟨hB.located, hB.work, hB.waiters, hB.tasks, hB.tidy⟩
  · exact hB

theorem Books.wakeOneThreadAndUnlock (hB : s.Books) : (s.wakeOneThreadAndUnlock t).Books := by
  unfold Scheduler.wakeOneThreadAndUnlock
  split
  · exact hB.unlockAndSignalOne
  · exact hB.unlockAndSignalOne.interruptTask

omit [DecidableEq ω] [DecidableEq ι] in
theorem Books.stopAllThreads (hB : s.Books) : s.stopAllThreads.Books := by
  apply Books.interruptTask
  constructor
  · simpa [queued, Thread.ops] using hB.located
  · simpa using hB.work
  · simpa using hB.waiters
  · simpa using hB.tasks
  · intro u
    simpa [Thread.Tidy] using hB.tidy u

section Entering

variable {m : Mode}

omit [DecidableEq ω] [DecidableEq ι] in
/-- A thread that takes the mutex has nothing of its own. -/
theorem Books.entering (hB : s.Books) (hplace : (s.threads t).place = .entering m) :
    (s.threads t).privateOutstandingWork = 0 ∧ (s.threads t).privateOpQueue = [] := by
  have htidy := hB.tidy t
  rw [Thread.Tidy, hplace] at htidy
  exact htidy

theorem Books.leave (hB : s.Books) (hplace : (s.threads t).place = .entering m) :
    (s.leave t).Books := by
  obtain ⟨hwork, hprivate⟩ := hB.entering hplace
  refine hB.update t _ rfl (fun a => ?_) ?_ ?_ ?_ ⟨rfl, rfl⟩
  · simp [copies, queued, Thread.ops, hplace, hprivate, Scheduler.leave, setThread]
  · simp [balance, hplace, hwork, Scheduler.leave, setThread]
  · simp [hplace, Scheduler.leave, setThread]
  · simp [hplace, Scheduler.leave, setThread]

theorem Books.complete (hB : s.Books) (hplace : (s.threads t).place = .entering m)
    {o : Operation ω} {rest : List (Entry ω)} (hqueue : s.opQueue = .operation o :: rest) :
    (complete t m { s with opQueue := rest } o).Books := by
  obtain ⟨hwork, hprivate⟩ := hB.entering hplace
  cases o with
  | descriptorState =>
      refine hB.update t _ rfl (fun a => ?_) ?_ ?_ ?_ ⟨hwork, hprivate⟩
      · simp [copies, queued, Thread.ops, hplace, hprivate, hqueue, Scheduler.complete, go,
          setThread, Operation.handler?, List.filterMap_cons]
      · simp [balance, hplace, hwork, Scheduler.complete, go, setThread]
      · simp [hplace, Scheduler.complete, go, setThread]
      · simp [hplace, hqueue, Scheduler.complete, go, setThread]
  | handler op =>
      refine hB.update t _ rfl (fun a => ?_) ?_ ?_ ?_ ?_
      · simp [copies, queued, Thread.ops, hplace, hprivate, hqueue, Scheduler.complete, go,
          setThread, Operation.handler?, List.count_cons]
        omega
      · simp only [balance, hplace, hwork, Scheduler.complete, go, setThread, Place.busy,
          List.length_append, List.length_singleton]
        omega
      · simp [hplace, Scheduler.complete, go, setThread]
      · simp [hplace, hqueue, Scheduler.complete, go, setThread]
      · simp [Thread.Tidy, hwork]

theorem Books.execute (hB : s.Books) (hplace : (s.threads t).place = .entering m)
    {oneThread : Bool} {o : Operation ω} {rest : List (Entry ω)}
    (hqueue : s.opQueue = .operation o :: rest) : (s.execute oneThread t m o rest).Books := by
  have hcomplete := hB.complete hplace hqueue
  unfold Scheduler.execute
  dsimp only
  split
  · exact hcomplete.wakeOneThreadAndUnlock
  · exact hcomplete

theorem Books.takeTask (hB : s.Books) (hplace : (s.threads t).place = .entering m)
    {rest : List (Entry ω)} (hqueue : s.opQueue = .task :: rest) (blocks interrupted : Bool) :
    (go t (.inTask m blocks)
      { s with opQueue := rest, taskInterrupted := interrupted }).Books := by
  refine hB.update t _ rfl (fun a => ?_) ?_ ?_ ?_ (hB.entering hplace)
  · simp [copies, queued, Thread.ops, hplace, hqueue, go, setThread, List.filterMap_cons]
  · simp [balance, hplace, go, setThread]
  · simp [hplace, go, setThread]
  · simp only [hplace, hqueue, go, setThread, Place.tasks, List.countP_cons, Entry.isTask, if_true]

theorem Books.doRunOne (hB : s.Books) (hplace : (s.threads t).place = .entering m)
    (oneThread : Bool) : (s.doRunOne oneThread t m).Books := by
  unfold Scheduler.doRunOne
  split
  · exact hB.leave hplace
  · split
    · rename_i hqueue
      refine hB.update t _ rfl (fun a => ?_) ?_ ?_ ?_ (hB.entering hplace)
      · simp [copies, queued, Thread.ops, hplace, go, setThread]
      · simp [balance, hplace, go, setThread]
      · simp [hplace, go, setThread]
      · simp [hplace, go, setThread]
    · rename_i rest hqueue
      have htaken := hB.takeTask hplace hqueue (!(!rest.isEmpty)) (!rest.isEmpty)
      dsimp only
      split
      · exact htaken.unlockAndSignalOne
      · exact htaken
    · rename_i o rest hqueue
      exact hB.execute hplace hqueue

theorem Books.doPollOne (hB : s.Books) (hplace : (s.threads t).place = .entering m)
    (oneThread : Bool) : (s.doPollOne oneThread t m).Books := by
  unfold Scheduler.doPollOne
  split
  · exact hB.leave hplace
  · split
    · exact hB.leave hplace
    · rename_i rest hqueue
      exact hB.takeTask hplace hqueue false s.taskInterrupted
    · rename_i o rest hqueue
      exact hB.execute hplace hqueue

theorem Books.pollAfterTask (hB : s.Books) (hplace : (s.threads t).place = .entering m)
    (oneThread : Bool) : (s.pollAfterTask oneThread t m).Books := by
  unfold Scheduler.pollAfterTask
  split
  · exact hB.leave hplace
  · exact (hB.leave hplace).unlockAndSignalOne
  · rename_i o rest hqueue
    exact hB.execute hplace hqueue

theorem Books.doOne (hB : s.Books) (hplace : (s.threads t).place = .entering m)
    (oneThread : Bool) : (s.doOne oneThread t m).Books := by
  unfold Scheduler.doOne
  split
  · exact hB.doPollOne hplace oneThread
  · exact hB.doRunOne hplace oneThread

end Entering

theorem Books.afterTask (hB : s.Books) {m : Mode} (hplace : (s.threads t).place = .entering m)
    (oneThread : Bool) : (s.afterTask oneThread t m).Books := by
  unfold Scheduler.afterTask
  split
  · exact hB.pollAfterTask hplace oneThread
  · exact hB.doRunOne hplace oneThread

omit [DecidableEq ω] [Fintype ι] in
theorem runTask_threads (t : ι) (m : Mode) (ready : List (Operation ω)) (s : Scheduler ι ω) :
    (runTask t m ready s).threads = Function.update s.threads t
      { place := .entering m, signalling := (s.threads t).signalling } := by
  simp [runTask, pushPrivate, setThread]

theorem Books.runTask (hB : s.Books) {m : Mode} {blocks : Bool}
    (hplace : (s.threads t).place = .inTask m blocks) {ready : List (Operation ω)}
    (hready : (ready.filterMap Operation.handler? : Multiset ω) ≤ s.reactorOps) :
    (runTask t m ready { s with
      reactorOps := s.reactorOps - (ready.filterMap Operation.handler? : Multiset ω) }).Books := by
  refine hB.update t _ (runTask_threads ..) (fun a => ?_) ?_ ?_ ?_ ⟨rfl, rfl⟩
  · have hle := Multiset.count_le_of_le a hready
    rw [Multiset.coe_count] at hle
    simp [copies, queued, Thread.ops, hplace, Scheduler.runTask, Scheduler.pushPrivate, setThread,
      List.filterMap_cons]
    omega
  · simp [balance, hplace, Scheduler.runTask, Scheduler.pushPrivate, setThread]
  · simp [hplace, Scheduler.runTask, Scheduler.pushPrivate, setThread]
  · simp [hplace, Scheduler.runTask, Scheduler.pushPrivate, setThread]

theorem Books.pushPrivate (hB : s.Books) {m : Mode} {threw : Bool}
    (hplace : (s.threads t).place = .unwinding m threw) : (s.pushPrivate t m []).Books := by
  have hwork : (s.threads t).privateOutstandingWork = 0 := by
    have htidy := hB.tidy t
    rwa [Thread.Tidy, hplace] at htidy
  refine hB.update t _ rfl (fun a => ?_) ?_ ?_ ?_ ⟨rfl, rfl⟩
  · simp [copies, queued, Thread.ops, hplace, Scheduler.pushPrivate, setThread]
    omega
  · simp [balance, hplace, hwork, Scheduler.pushPrivate, setThread]
  · simp [hplace, Scheduler.pushPrivate, setThread]
  · simp [hplace, Scheduler.pushPrivate, setThread]

theorem Books.unwind (hB : s.Books) {m : Mode} {threw : Bool}
    (hplace : (s.threads t).place = .unwinding m threw) (oneThread : Bool) :
    (s.unwind oneThread t m threw).Books := by
  have hpushed := hB.pushPrivate hplace
  have hentering : ((s.pushPrivate t m []).threads t).place = .entering m := by
    simp [Scheduler.pushPrivate]
  unfold Scheduler.unwind
  dsimp only
  split
  · exact hpushed.leave hentering
  · split
    · exact hpushed
    · exact hpushed.doOne hentering oneThread

end Books

end Scheduler

end AsioSamples.Asio
