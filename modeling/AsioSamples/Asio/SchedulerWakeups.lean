import AsioSamples.Asio.SchedulerBooks

/-!
# No wakeup is lost

The threads of the scheduler sleep in `pthread_cond_wait`, and one of them in the reactor. While
there is an entry in the queue some thread is on its way to it.
-/

namespace AsioSamples.Asio

open Framework

variable {ι ω : Type}

namespace Place

/-- The thread sleeps, in `pthread_cond_wait` or in the reactor, which has not been interrupted. -/
def Sleeps (interrupted : Bool) : Place ω → Prop
  | .blocked _ => True
  | .inTask _ blocks => blocks = true ∧ interrupted = false
  | _ => False

/-- The thread will look at the queue without being told to. -/
def Alert (interrupted : Bool) : Place ω → Prop
  | .entering _ => True
  | .inTask _ blocks => blocks = false ∨ interrupted = true
  | _ => False

def isWoken : Place ω → Bool
  | .woken _ => true
  | _ => false

/-- The thread neither sleeps nor looks at the queue next. -/
def isCalm : Place ω → Bool
  | .entering _ => false
  | .blocked _ => false
  | .woken _ => false
  | .inTask _ _ => false
  | _ => true

/-- The thread is in one of the functions that run handlers. -/
def inRun : Place ω → Bool
  | .outside => false
  | .pushing _ next => next.inRun
  | .stopping next => next.inRun
  | _ => true

def Drowsy (interrupted : Bool) (p : Place ω) : Prop := p.Sleeps interrupted ∨ p.isWoken = true

variable {p : Place ω} {interrupted : Bool}

theorem not_drowsy_of_calm (h : p.isCalm = true) : ¬ p.Drowsy interrupted := by
  cases p <;> simp_all [Drowsy, Sleeps, isWoken, isCalm]

theorem not_woken_of_calm (h : p.isCalm = true) : ¬ p.isWoken = true := by
  cases p <;> simp_all [isWoken, isCalm]

theorem not_alert_of_calm (h : p.isCalm = true) : ¬ p.Alert interrupted := by
  cases p <;> simp_all [Alert, isCalm]

theorem not_blocked_of_calm (h : p.isCalm = true) : p.isBlocked = false := by
  cases p <;> simp_all [isBlocked, isCalm]

theorem Sleeps.mono {interrupted' : Bool} (h : p.Sleeps interrupted')
    (hi : interrupted = true → interrupted' = true) : p.Sleeps interrupted := by
  cases p with
  | inTask m blocks =>
      refine ⟨h.1, Bool.eq_false_iff.mpr fun ht => ?_⟩
      rw [h.2] at hi
      cases hi ht
  | _ => exact h

theorem inRun_of_drowsy (h : p.Drowsy interrupted) : p.inRun = true := by
  cases p <;> simp_all [Drowsy, Sleeps, isWoken, inRun]

theorem calm_of_resumes (h : p.resumes = true) : p.isCalm = true := by
  cases p <;> simp_all [isCalm]

theorem calm_of_inProgram (h : p.inProgram = true) : p.isCalm = true :=
  calm_of_resumes (resumes_of_inProgram h)

theorem waits_pos_iff {q : List (Operation ω)} {work : ℕ} (h : p.Allows q work) :
    0 < p.waits ↔ p.isBlocked = true ∨ p.isWoken = true := by
  cases p with
  | pushing ops next => cases next <;> simp_all [isBlocked, isWoken]
  | stopping next => cases next <;> simp_all [isBlocked, isWoken]
  | _ => simp [isBlocked, isWoken]

end Place

namespace Scheduler

section Watched

/-- Some thread is on its way to the queue, or will be as soon as it gets the mutex. -/
def Minded (s : Scheduler ι ω) : Prop :=
  (∃ v, (s.threads v).place.Alert s.taskInterrupted) ∨
    s.signalled = true ∧ ((∃ v, (s.threads v).place.isWoken = true) ∨
      (∃ v, (s.threads v).signalling = true) ∧ ∃ v, (s.threads v).place.isBlocked = true)

/-- No thread sleeps, or is about to, while nobody is on the way to an entry of the queue. -/
def Watched (s : Scheduler ι ω) : Prop :=
  s.opQueue ≠ [] → s.stopped = false →
    ∀ u, (s.threads u).place.Drowsy s.taskInterrupted → s.Minded

/-- Once the scheduler is stopped nobody sleeps. -/
def Halted (s : Scheduler ι ω) : Prop :=
  s.stopped = true → s.signalled = true ∧ ∀ u, ¬ (s.threads u).place.Sleeps s.taskInterrupted

def Alone (s : Scheduler ι ω) : Prop :=
  ∀ u v, (s.threads u).place.inRun = true → (s.threads v).place.inRun = true → u = v

structure Mindful (oneThread : Bool) (s : Scheduler ι ω) : Prop where
  watched : s.Watched
  halted : s.Halted
  alone : oneThread = true → s.Alone

variable [DecidableEq ι] {s s' : Scheduler ι ω} {t : ι} {thread : Thread ω} {oneThread : Bool}

omit [DecidableEq ι] in
theorem Halted.mono (hH : s.Halted) (hstopped : s'.stopped = s.stopped)
    (hsignalled : s.signalled = true → s'.signalled = true)
    (hsleeps : ∀ u, (s'.threads u).place.Sleeps s'.taskInterrupted →
      (s.threads u).place.Sleeps s.taskInterrupted) : s'.Halted := by
  intro h
  rw [hstopped] at h
  exact ⟨hsignalled (hH h).1, fun u hu => (hH h).2 u (hsleeps u hu)⟩

omit [DecidableEq ι] in
theorem Alone.mono (hA : s.Alone)
    (hrun : ∀ u, (s'.threads u).place.inRun = true → (s.threads u).place.inRun = true) :
    s'.Alone :=
  fun u v hu hv => hA u v (hrun u hu) (hrun v hv)

theorem Halted.update (hH : s.Halted) (hthreads : s'.threads = Function.update s.threads t thread)
    (hstopped : s'.stopped = s.stopped) (hsignalled : s.signalled = true → s'.signalled = true)
    (hinterrupted : s.taskInterrupted = true → s'.taskInterrupted = true)
    (hnew : ¬ thread.place.Sleeps s'.taskInterrupted) : s'.Halted := by
  refine hH.mono hstopped hsignalled fun u hu => ?_
  rw [hthreads] at hu
  by_cases hut : u = t
  · rw [hut, Function.update_self] at hu
    exact absurd hu hnew
  · rw [Function.update_of_ne hut] at hu
    exact hu.mono hinterrupted

theorem Alone.update (hA : s.Alone) (hthreads : s'.threads = Function.update s.threads t thread)
    (hnew : thread.place.inRun = true → (s.threads t).place.inRun = true) : s'.Alone := by
  refine hA.mono fun u hu => ?_
  rw [hthreads] at hu
  by_cases hut : u = t
  · rw [hut, Function.update_self] at hu
    rw [hut]
    exact hnew hu
  · rwa [Function.update_of_ne hut] at hu

/-- A calm thread moves, and not to a place where it sleeps. -/
theorem Mindful.update (hM : s.Mindful oneThread)
    (hthreads : s'.threads = Function.update s.threads t thread)
    (hqueue : s'.opQueue ≠ [] → s.opQueue ≠ []) (hstopped : s'.stopped = s.stopped)
    (hsignalled : s'.signalled = s.signalled)
    (hinterrupted : s'.taskInterrupted = s.taskInterrupted)
    (hold : (s.threads t).place.isCalm = true)
    (hsignalling : (s.threads t).signalling = true → thread.signalling = true)
    (hnew : ¬ thread.place.Drowsy s'.taskInterrupted)
    (halone : oneThread = true → s'.Alone) : s'.Mindful oneThread where
  watched := by
    intro hne hopen u hu
    rw [hinterrupted] at hu hnew
    rw [hthreads] at hu
    have hut : u ≠ t := by
      intro hut
      rw [hut, Function.update_self] at hu
      exact hnew hu
    rw [Function.update_of_ne hut] at hu
    have hother : ∀ v, v ≠ t → s'.threads v = s.threads v := by
      intro v hv
      rw [hthreads, Function.update_of_ne hv]
    have hne_of : ∀ v, (s.threads v).place.isCalm = false → v ≠ t := by
      intro v hv hvt
      rw [hvt, hold] at hv
      cases hv
    rcases hM.watched (hqueue hne) (hstopped ▸ hopen) u hu with
      ⟨v, hv⟩ | ⟨hs, ⟨v, hv⟩ | ⟨⟨v, hv⟩, w, hw⟩⟩
    · refine .inl ⟨v, ?_⟩
      rw [hinterrupted, hother v (hne_of v ?_)]
      · exact hv
      · exact Bool.eq_false_iff.mpr fun hc => Place.not_alert_of_calm hc hv
    · refine .inr ⟨hsignalled.trans hs, .inl ⟨v, ?_⟩⟩
      rw [hother v (hne_of v ?_)]
      · exact hv
      · exact Bool.eq_false_iff.mpr fun hc => Place.not_woken_of_calm hc hv
    · refine .inr ⟨hsignalled.trans hs, .inr ⟨⟨v, ?_⟩, w, ?_⟩⟩
      · by_cases hvt : v = t
        · rw [hthreads, hvt, Function.update_self]
          exact hsignalling (hvt ▸ hv)
        · rw [hother v hvt]
          exact hv
      · rw [hother w (hne_of w ?_)]
        · exact hw
        · refine Bool.eq_false_iff.mpr fun hc => ?_
          rw [Place.not_blocked_of_calm hc] at hw
          cases hw
  halted := by
    refine hM.halted.update hthreads hstopped (fun h => hsignalled.trans h)
      (fun h => hinterrupted.trans h) ?_
    exact fun h => hnew (.inl h)
  alone := halone

end Watched

section Waking

variable [DecidableEq ι] [DecidableEq ω] [Fintype ι] {s s' : Scheduler ι ω} {t u : ι} {m : Mode}
  {oneThread : Bool}

omit [DecidableEq ω] [Fintype ι] in
@[simp] theorem unlockAndSignalOne_place :
    ((s.unlockAndSignalOne t).threads u).place = (s.threads u).place := by
  unfold unlockAndSignalOne
  dsimp only
  split
  · by_cases hu : u = t
    · rw [hu, setThread_self]
    · rw [setThread_of_ne hu]
  · rfl

omit [DecidableEq ω] [Fintype ι] in
@[simp] theorem unlockAndSignalOne_signalled : (s.unlockAndSignalOne t).signalled = true := by
  unfold unlockAndSignalOne
  dsimp only
  split <;> rfl

omit [DecidableEq ω] [Fintype ι] in
@[simp] theorem unlockAndSignalOne_opQueue : (s.unlockAndSignalOne t).opQueue = s.opQueue := by
  unfold unlockAndSignalOne
  dsimp only
  split <;> rfl

omit [DecidableEq ω] [Fintype ι] in
@[simp] theorem unlockAndSignalOne_stopped : (s.unlockAndSignalOne t).stopped = s.stopped := by
  unfold unlockAndSignalOne
  dsimp only
  split <;> rfl

omit [DecidableEq ω] [Fintype ι] in
@[simp] theorem unlockAndSignalOne_taskInterrupted :
    (s.unlockAndSignalOne t).taskInterrupted = s.taskInterrupted := by
  unfold unlockAndSignalOne
  dsimp only
  split <;> rfl

omit [DecidableEq ω] [Fintype ι] in
theorem unlockAndSignalOne_signalling (h : 0 < s.waiters) :
    ((s.unlockAndSignalOne t).threads t).signalling = true := by
  simp [unlockAndSignalOne, h, setThread]

omit [DecidableEq ω] in
/-- Where threads wait for the event, one of them is on its way, or is about to be signalled. -/
theorem minded_of_waiters (hB : s.Books) (h : 0 < s.waiters) :
    (s.unlockAndSignalOne t).Minded := by
  rw [hB.waiters] at h
  obtain ⟨v, hv⟩ := exists_pos_of_sum_pos h
  rw [← hB.waiters] at h
  refine .inr ⟨unlockAndSignalOne_signalled, ?_⟩
  rcases (Place.waits_pos_iff (hB.tidy v)).mp hv with hblocked | hwoken
  · refine .inr ⟨⟨t, unlockAndSignalOne_signalling h⟩, v, ?_⟩
    rwa [unlockAndSignalOne_place]
  · refine .inl ⟨v, ?_⟩
    rwa [unlockAndSignalOne_place]

omit [DecidableEq ω] [DecidableEq ι] in
/-- Where no thread waits for the event, only a thread in the reactor can sleep. -/
theorem Books.in_task_of_drowsy (hB : s.Books) (h : ¬ 0 < s.waiters) {interrupted : Bool}
    (hu : (s.threads u).place.Drowsy interrupted) :
    interrupted = false ∧ 0 < (s.threads u).place.tasks := by
  have hwaits : ¬ 0 < (s.threads u).place.waits := by
    have hle := le_sum_threads (fun v => (s.threads v).place.waits) u
    rw [← hB.waiters] at hle
    omega
  cases hplace : (s.threads u).place with
  | blocked m => simp [hplace] at hwaits
  | woken m => simp [hplace] at hwaits
  | inTask m blocks =>
      rw [hplace] at hu
      rcases hu with hu | hu
      · exact ⟨hu.2, Nat.one_pos⟩
      · cases hu
  | _ =>
      rw [hplace] at hu
      rcases hu with hu | hu <;> cases hu

omit [DecidableEq ω] [DecidableEq ι] in
theorem Books.task_of_tasks (hB : s.Books) (h : 0 < (s.threads u).place.tasks) :
    s.task = true := by
  have hle := le_sum_threads (fun v => (s.threads v).place.tasks) u
  have hsum := hB.tasks
  cases htask : s.task with
  | true => rfl
  | false =>
      rw [htask, Bool.toNat_false] at hsum
      omega

omit [DecidableEq ω] in
theorem wakeOneThreadAndUnlock_watched (hB : s.Books) : (s.wakeOneThreadAndUnlock t).Watched := by
  intro _ _ u hu
  unfold wakeOneThreadAndUnlock at hu ⊢
  by_cases hw : 0 < s.waiters
  · rw [if_pos hw]
    exact minded_of_waiters hB hw
  · rw [if_neg hw] at hu
    have hplace : (((s.unlockAndSignalOne t).interruptTask).threads u).place =
        (s.threads u).place := by
      unfold interruptTask
      split <;> exact unlockAndSignalOne_place
    rw [hplace] at hu
    obtain ⟨hinterrupted, htasks⟩ := hB.in_task_of_drowsy hw hu
    have htask := hB.task_of_tasks htasks
    simp only [unlockAndSignalOne, hw, if_false, interruptTask, htask, Bool.and_true]
      at hinterrupted
    split at hinterrupted
    · cases hinterrupted
    · simp_all

omit [DecidableEq ω] [Fintype ι] in
@[simp] theorem wakeOneThreadAndUnlock_place :
    ((s.wakeOneThreadAndUnlock t).threads u).place = (s.threads u).place := by
  unfold wakeOneThreadAndUnlock interruptTask
  dsimp only
  split
  · exact unlockAndSignalOne_place
  · split <;> exact unlockAndSignalOne_place

omit [DecidableEq ω] [DecidableEq ι] [Fintype ι] in
@[simp] theorem stopAllThreads_place :
    (s.stopAllThreads.threads u).place = (s.threads u).place.wake := by
  unfold stopAllThreads interruptTask
  split <;> rfl

omit [DecidableEq ω] [Fintype ι] in
theorem Halted.unlockAndSignalOne (hH : s.Halted) : (s.unlockAndSignalOne t).Halted := by
  refine hH.mono unlockAndSignalOne_stopped (fun _ => unlockAndSignalOne_signalled) fun u hu => ?_
  rwa [unlockAndSignalOne_place, unlockAndSignalOne_taskInterrupted] at hu

omit [DecidableEq ω] [DecidableEq ι] [Fintype ι] in
theorem Halted.interruptTask (hH : s.Halted) : s.interruptTask.Halted := by
  unfold Scheduler.interruptTask
  split
  · exact hH.mono rfl id fun u hu => hu.mono fun _ => rfl
  · exact hH

omit [DecidableEq ω] [Fintype ι] in
theorem Halted.wakeOneThreadAndUnlock (hH : s.Halted) : (s.wakeOneThreadAndUnlock t).Halted := by
  unfold Scheduler.wakeOneThreadAndUnlock
  split
  · exact hH.unlockAndSignalOne
  · exact hH.unlockAndSignalOne.interruptTask

omit [DecidableEq ω] in
theorem wakeOneThreadAndUnlock_mindful (hB : s.Books) (hH : s.Halted)
    (hA : oneThread = true → s.Alone) : (s.wakeOneThreadAndUnlock t).Mindful oneThread where
  watched := wakeOneThreadAndUnlock_watched hB
  halted := hH.wakeOneThreadAndUnlock
  alone h := (hA h).mono fun u hu => by rwa [wakeOneThreadAndUnlock_place] at hu

omit [DecidableEq ω] [Fintype ι] in
theorem leave_mindful (hH : s.Halted) (hA : oneThread = true → s.Alone)
    (hwatched : s.opQueue = [] ∨ s.stopped = true) : (s.leave t).Mindful oneThread where
  watched := by
    intro hne hopen
    rcases hwatched with h | h
    · exact absurd h hne
    · exact absurd (h.symm.trans hopen) (by decide)
  halted := hH.update rfl rfl id id id
  alone h := (hA h).update rfl fun hfalse => absurd hfalse Bool.false_ne_true

theorem execute_mindful (hB : s.Books) (hplace : (s.threads t).place = .entering m)
    {o : Operation ω} {rest : List (Entry ω)} (hqueue : s.opQueue = .operation o :: rest)
    (hH : s.Halted) (hA : oneThread = true → s.Alone) :
    (s.execute oneThread t m o rest).Mindful oneThread := by
  have hcalm : ((complete t m { s with opQueue := rest } o).threads t).place.isCalm = true := by
    cases o <;> simp [complete, go, Place.isCalm]
  have hrun : ((complete t m { s with opQueue := rest } o).threads t).place.inRun = true := by
    cases o <;> simp [complete, go, Place.inRun]
  have hrest : (complete t m { s with opQueue := rest } o).opQueue = rest := by cases o <;> rfl
  have hhalted : (complete t m { s with opQueue := rest } o).Halted := by
    cases o <;> exact hH.update rfl rfl id id id
  have halone : oneThread = true → (complete t m { s with opQueue := rest } o).Alone := by
    intro h
    cases o <;> exact (hA h).update rfl fun _ => by rw [hplace]; rfl
  unfold execute
  dsimp only
  split
  · exact wakeOneThreadAndUnlock_mindful (hB.complete hplace hqueue) hhalted halone
  · rename_i hquiet
    refine ⟨fun hne _ u hu => ?_, hhalted, halone⟩
    rw [hrest] at hne
    have hone : oneThread = true := by simpa [hne] using hquiet
    have hut := halone hone u t (Place.inRun_of_drowsy hu) hrun
    exact absurd (hut ▸ hu) (Place.not_drowsy_of_calm hcalm)

omit [DecidableEq ω] [Fintype ι] in
/-- The task is only asked for what is ready when there are other entries. -/
theorem takeTask_alert {rest : List (Entry ω)} (hrest : rest ≠ []) :
    ((go t (.inTask m !(!rest.isEmpty))
      { s with opQueue := rest, taskInterrupted := !rest.isEmpty }).threads t).place.Alert
        (!rest.isEmpty) := by
  simp [go, Place.Alert, hrest]

theorem doRunOne_mindful (hB : s.Books) (hplace : (s.threads t).place = .entering m)
    (hH : s.Halted) (hA : oneThread = true → s.Alone) :
    (s.doRunOne oneThread t m).Mindful oneThread := by
  unfold doRunOne
  split
  · rename_i hstopped
    exact leave_mindful hH hA (.inr hstopped)
  · rename_i hopen
    split
    · refine ⟨fun hne => absurd ‹_› hne, fun hstopped => absurd hstopped hopen, fun h => ?_⟩
      exact (hA h).update rfl fun _ => by rw [hplace]; rfl
    · rename_i rest hqueue
      have halone : oneThread = true → (go t (.inTask m !(!rest.isEmpty))
          { s with opQueue := rest, taskInterrupted := !rest.isEmpty }).Alone :=
        fun h => (hA h).update rfl fun _ => by rw [hplace]; rfl
      dsimp only
      split
      · refine ⟨fun hne _ u _ => .inl ⟨t, ?_⟩, fun hstopped => ?_,
          fun h => (halone h).mono fun u hu => ?_⟩
        · rw [unlockAndSignalOne_opQueue] at hne
          rw [unlockAndSignalOne_place, unlockAndSignalOne_taskInterrupted]
          exact takeTask_alert hne
        · rw [unlockAndSignalOne_stopped] at hstopped
          exact absurd hstopped hopen
        · rwa [unlockAndSignalOne_place] at hu
      · exact ⟨fun hne _ u _ => .inl ⟨t, takeTask_alert hne⟩,
          fun hstopped => absurd hstopped hopen, halone⟩
    · rename_i o rest hqueue
      exact execute_mindful hB hplace hqueue hH hA

theorem doPollOne_mindful (hB : s.Books) (hplace : (s.threads t).place = .entering m)
    (hH : s.Halted) (hA : oneThread = true → s.Alone) :
    (s.doPollOne oneThread t m).Mindful oneThread := by
  unfold doPollOne
  split
  · rename_i hstopped
    exact leave_mindful hH hA (.inr hstopped)
  · rename_i hopen
    split
    · exact leave_mindful hH hA (.inl ‹_›)
    · refine ⟨fun _ _ u _ => .inl ⟨t, ?_⟩, fun hstopped => absurd hstopped hopen, fun h => ?_⟩
      · simp [go, Place.Alert]
      · exact (hA h).update rfl fun _ => by rw [hplace]; rfl
    · rename_i o rest hqueue
      exact execute_mindful hB hplace hqueue hH hA

theorem pollAfterTask_mindful (hB : s.Books) (hplace : (s.threads t).place = .entering m)
    (hH : s.Halted) (hA : oneThread = true → s.Alone) :
    (s.pollAfterTask oneThread t m).Mindful oneThread := by
  unfold pollAfterTask
  split
  · exact leave_mindful hH hA (.inl ‹_›)
  · rename_i rest hqueue
    have hleft := hB.leave hplace
    have hH' : (s.leave t).Halted := hH.update rfl rfl id id id
    refine ⟨fun _ _ u hu => ?_, hH'.unlockAndSignalOne, fun h => ?_⟩
    · by_cases hw : 0 < (s.leave t).waiters
      · exact minded_of_waiters hleft hw
      · rw [unlockAndSignalOne_place] at hu
        have htasks := (hleft.in_task_of_drowsy hw hu).2
        have hle := le_sum_threads (fun v => ((s.leave t).threads v).place.tasks) u
        have hsum := hleft.tasks
        have hone : 1 ≤ (s.leave t).opQueue.countP Entry.isTask := by
          rw [show (s.leave t).opQueue = .task :: rest from hqueue]
          simp
        have hbool := Bool.toNat_le (s.leave t).task
        omega
    · refine (hA h).mono fun u hu => ?_
      rw [unlockAndSignalOne_place] at hu
      by_cases hut : u = t
      · rw [hut, hplace]
        rfl
      · rwa [leave, setThread_of_ne hut] at hu
  · rename_i o rest hqueue
    exact execute_mindful hB hplace hqueue hH hA

theorem doOne_mindful (hB : s.Books) (hplace : (s.threads t).place = .entering m)
    (hH : s.Halted) (hA : oneThread = true → s.Alone) :
    (s.doOne oneThread t m).Mindful oneThread := by
  unfold doOne
  split
  · exact doPollOne_mindful hB hplace hH hA
  · exact doRunOne_mindful hB hplace hH hA

theorem afterTask_mindful (hB : s.Books) (hplace : (s.threads t).place = .entering m)
    (hH : s.Halted) (hA : oneThread = true → s.Alone) :
    (s.afterTask oneThread t m).Mindful oneThread := by
  unfold afterTask
  split
  · exact pollAfterTask_mindful hB hplace hH hA
  · exact doRunOne_mindful hB hplace hH hA

end Waking

end Scheduler

end AsioSamples.Asio
