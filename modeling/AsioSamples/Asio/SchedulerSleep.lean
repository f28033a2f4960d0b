import AsioSamples.Asio.SchedulerAccounts
import AsioSamples.Asio.SchedulerWakeups

/-!
# When the scheduler sleeps

Every step of the threads keeps somebody on the way to the queue. So the threads sleep when there
is nothing to do, and then one of them listens to the reactor.
-/

namespace AsioSamples.Asio

open Framework

variable {ι ω : Type}

namespace Scheduler

section Steps

variable [DecidableEq ι] [DecidableEq ω] [Fintype ι] {s s' : Scheduler ι ω} {t u : ι} {m : Mode}
  {oneThread : Bool}

/-- What a program takes care of. With the concurrency hint 1 it runs the scheduler on one thread
at a time. A thread does not leave the scheduler with operations of its own while others sleep:
neither after one handler, in `run_one` or `poll_one`, nor because the handler threw. -/
def Cautious (oneThread : Bool) (s : Scheduler ι ω) : Event ι ω → Prop
  | .call _ _ => oneThread = true → ∀ u, (s.threads u).place.inRun = false
  | .unwind t => ∀ m threw, (s.threads t).place = .unwinding m threw →
      threw = true ∨ m.loops = false → (s.threads t).privateOpQueue = [] ∨
        ∀ u, ¬ (s.threads u).place.Drowsy s.taskInterrupted
  | _ => True

/-- A thread that is calm has moved and is calm again. -/
structure Calms (t : ι) (s s' : Scheduler ι ω) : Prop where
  threads : ∃ thread, s'.threads = Function.update s.threads t thread ∧
    thread.place.isCalm = true ∧
    (thread.place.inRun = true → (s.threads t).place.inRun = true) ∧
    thread.signalling = (s.threads t).signalling
  opQueue : s'.opQueue = s.opQueue
  stopped : s'.stopped = s.stopped
  signalled : s'.signalled = s.signalled
  taskInterrupted : s'.taskInterrupted = s.taskInterrupted

section Calms

omit [DecidableEq ω] [Fintype ι]

theorem Calms.trans {s'' : Scheduler ι ω} (h : Calms t s s') (h' : Calms t s' s'') :
    Calms t s s'' := by
  obtain ⟨thread, hthreads, hcalm, hrun, hsignalling⟩ := h.threads
  obtain ⟨thread', hthreads', hcalm', hrun', hsignalling'⟩ := h'.threads
  rw [hthreads, Function.update_self] at hrun' hsignalling'
  rw [hthreads, Function.update_idem] at hthreads'
  exact ⟨⟨thread', hthreads', hcalm', fun hr => hrun (hrun' hr), hsignalling'.trans hsignalling⟩,
    h'.opQueue.trans h.opQueue, h'.stopped.trans h.stopped, h'.signalled.trans h.signalled,
    h'.taskInterrupted.trans h.taskInterrupted⟩

theorem Mindful.calms (hM : s.Mindful oneThread) (hC : Calms t s s')
    (hold : (s.threads t).place.isCalm = true) : s'.Mindful oneThread := by
  obtain ⟨thread, hthreads, hcalm, hrun, hsignalling⟩ := hC.threads
  exact hM.update hthreads (fun h => hC.opQueue ▸ h) hC.stopped hC.signalled hC.taskInterrupted
    hold (fun h => hsignalling.trans h) (Place.not_drowsy_of_calm hcalm)
    fun h => (hM.alone h).update hthreads hrun

theorem calms_refl (h : (s.threads t).place.isCalm = true) : Calms t s s :=
  ⟨⟨s.threads t, (Function.update_eq_self t s.threads).symm, h, id, rfl⟩, rfl, rfl, rfl, rfl⟩

variable (oneThread) in
theorem postDeferredCompletions_calms (h : (s.threads t).place.isCalm = true) (ops : List ω) :
    Calms t s (s.postDeferredCompletions oneThread t ops) := by
  unfold postDeferredCompletions
  dsimp only
  split
  · exact calms_refl h
  · split
    · exact ⟨⟨_, rfl, h, id, rfl⟩, rfl, rfl, rfl, rfl⟩
    · exact ⟨⟨_, rfl, rfl, id, rfl⟩, rfl, rfl, rfl, rfl⟩

variable (oneThread) in
theorem postImmediateCompletions_calms (h : (s.threads t).place.isCalm = true) (ops : List ω)
    (isContinuation : Bool) :
    Calms t s (s.postImmediateCompletions oneThread t ops isContinuation) := by
  unfold postImmediateCompletions
  dsimp only
  split
  · exact ⟨⟨_, rfl, h, id, rfl⟩, rfl, rfl, rfl, rfl⟩
  · exact ⟨⟨_, rfl, rfl, id, rfl⟩, rfl, rfl, rfl, rfl⟩

theorem workFinished_calms (h : (s.threads t).place.isCalm = true) :
    Calms t s (s.workFinished t) := by
  unfold workFinished
  dsimp only
  split
  · exact ⟨⟨_, rfl, rfl, id, rfl⟩, rfl, rfl, rfl, rfl⟩
  · exact ⟨(calms_refl h).threads, rfl, rfl, rfl, rfl⟩

theorem finish_calms {op : Option ω} (h : (s.threads t).place = .running m op) (threw : Bool) :
    Calms t s (s.finish t m threw) := by
  have hrun : (s.threads t).place.inRun = true := by
    rw [h]
    rfl
  have hunwinding : Calms t s (setThread t { s.threads t with
      place := .unwinding m threw, privateOutstandingWork := 0 } s) :=
    ⟨⟨_, rfl, rfl, fun _ => hrun, rfl⟩, rfl, rfl, rfl, rfl⟩
  unfold finish
  dsimp only
  split
  · exact ⟨hunwinding.threads, rfl, rfl, rfl, rfl⟩
  · split
    · apply hunwinding.trans (workFinished_calms ?_)
      rw [setThread_self]
      rfl
    · exact hunwinding

end Calms

omit [Fintype ι] in
theorem doComplete_calms (h : (s.threads t).place = .performing m) (ops : List ω) :
    Calms t s (s.doComplete oneThread t m ops) := by
  have hrun : (s.threads t).place.inRun = true := by
    rw [h]
    rfl
  unfold doComplete
  cases ops with
  | nil => exact ⟨⟨_, rfl, rfl, fun _ => hrun, rfl⟩, rfl, rfl, rfl, rfl⟩
  | cons op rest =>
      have hrunning : Calms t s (go t (.running m (some op)) { s with
          reactorOps := s.reactorOps - ((op :: rest : List ω) : Multiset ω)
          invoked := s.invoked ++ [op] }) :=
        ⟨⟨_, rfl, rfl, fun _ => hrun, rfl⟩, rfl, rfl, rfl, rfl⟩
      apply hrunning.trans (postDeferredCompletions_calms oneThread ?_ rest)
      rw [go, setThread_self]
      rfl

omit [DecidableEq ι] [DecidableEq ω] in
theorem stopAllThreads_mindful (hB : s.Books) (hA : oneThread = true → s.Alone) :
    s.stopAllThreads.Mindful oneThread := by
  have hstopped : s.stopAllThreads.stopped = true := by
    unfold stopAllThreads interruptTask
    split <;> rfl
  have hsignalled : s.stopAllThreads.signalled = true := by
    unfold stopAllThreads interruptTask
    split <;> rfl
  refine ⟨fun _ hopen => ?_, fun _ => ⟨hsignalled, fun u hu => ?_⟩, fun h => ?_⟩
  · rw [hstopped] at hopen
    cases hopen
  · rw [stopAllThreads_place] at hu
    cases hp : (s.threads u).place with
    | inTask m blocks =>
        have htask := hB.task_of_tasks (u := u) (by rw [hp]; exact Nat.one_pos)
        rw [hp] at hu
        have hi := hu.2
        unfold stopAllThreads interruptTask at hi
        cases hti : s.taskInterrupted <;> simp [hti, htask] at hi
    | _ =>
        rw [hp] at hu
        cases hu
  · refine (hA h).mono fun u hu => ?_
    rw [stopAllThreads_place] at hu
    cases hp : (s.threads u).place <;> rw [hp] at hu <;> exact hu

omit [DecidableEq ω] [DecidableEq ι] [Fintype ι] in
/-- A blocked thread comes back from `pthread_cond_wait`. -/
theorem Mindful.awakened (hM : s.Mindful oneThread) (hu : (s.threads u).place.isBlocked = true)
    (hself : (s'.threads u).place = (s.threads u).place.wake)
    (hother : ∀ v, v ≠ u → (s'.threads v).place = (s.threads v).place)
    (hqueue : s'.opQueue = s.opQueue) (hstopped : s'.stopped = s.stopped)
    (hsignalled : s'.signalled = s.signalled)
    (hinterrupted : s'.taskInterrupted = s.taskInterrupted) : s'.Mindful oneThread := by
  obtain ⟨m, hblocked⟩ : ∃ m, (s.threads u).place = .blocked m := by
    cases hp : (s.threads u).place with
    | blocked m => exact ⟨m, rfl⟩
    | _ =>
        rw [hp] at hu
        cases hu
  rw [hblocked] at hself
  have hplaces : ∀ v, (s'.threads v).place = (s.threads v).place ∨ v = u := by
    intro v
    by_cases hv : v = u
    · exact .inr hv
    · exact .inl (hother v hv)
  refine ⟨fun hne hopen v hv => ?_, ?_, fun h => (hM.alone h).mono fun v hv => ?_⟩
  · have hdrowsy : (s.threads v).place.Drowsy s.taskInterrupted := by
      rcases hplaces v with h | rfl
      · rwa [h, hinterrupted] at hv
      · rw [hblocked]
        exact .inl trivial
    rcases hM.watched (hqueue ▸ hne) (hstopped ▸ hopen) v hdrowsy with ⟨w, hw⟩ | ⟨hs, -⟩
    · refine .inl ⟨w, ?_⟩
      rcases hplaces w with h | rfl
      · rwa [h, hinterrupted]
      · rw [hblocked] at hw
        cases hw
    · exact .inr ⟨hsignalled.trans hs, .inl ⟨u, by rw [hself]; rfl⟩⟩
  · refine hM.halted.mono hstopped (fun h => hsignalled.trans h) fun v hv => ?_
    rcases hplaces v with h | rfl
    · rwa [h, hinterrupted] at hv
    · rw [hself] at hv
      cases hv
  · rcases hplaces v with h | rfl
    · rwa [h] at hv
    · rw [hblocked]
      rfl

omit [DecidableEq ω] [Fintype ι] in
/-- A thread that was woken for nothing waits again. -/
theorem Mindful.asleepAgain (hM : s.Mindful oneThread) (hplace : (s.threads t).place = .woken m)
    (hsignalled : ¬ s.signalled = true) : (s.go t (.blocked m)).Mindful oneThread := by
  refine ⟨fun hne hopen u hu => ?_, fun hstopped => ?_, fun h => ?_⟩
  · have hdrowsy : (s.threads u).place.Drowsy s.taskInterrupted := by
      by_cases hut : u = t
      · rw [hut, hplace]
        exact .inr rfl
      · rwa [go, setThread_of_ne hut] at hu
    rcases hM.watched hne hopen u hdrowsy with ⟨v, hv⟩ | ⟨hs, -⟩
    · refine .inl ⟨v, ?_⟩
      have hvt : v ≠ t := by
        rintro rfl
        rw [hplace] at hv
        cases hv
      rwa [go, setThread_of_ne hvt]
    · exact absurd hs hsignalled
  · exact absurd (hM.halted hstopped).1 hsignalled
  · exact (hM.alone h).update rfl fun _ => by rw [hplace]; rfl

theorem Mindful.unwinds (hM : s.Mindful oneThread) (hB : s.Books) {threw : Bool}
    (hplace : (s.threads t).place = .unwinding m threw)
    (hcautious : threw = true ∨ m.loops = false → (s.threads t).privateOpQueue = [] ∨
      ∀ u, ¬ (s.threads u).place.Drowsy s.taskInterrupted) :
    (s.unwind oneThread t m threw).Mindful oneThread := by
  have hrun : (s.threads t).place.inRun = true := by
    rw [hplace]
    rfl
  have hentering : ((s.pushPrivate t m []).threads t).place = .entering m := by
    simp [pushPrivate]
  have hhalted : (s.pushPrivate t m []).Halted := hM.halted.update rfl rfl id id id
  have halone : oneThread = true → (s.pushPrivate t m []).Alone :=
    fun h => (hM.alone h).update rfl fun _ => hrun
  unfold unwind
  dsimp only
  split
  · rename_i hleaves
    have hleaves : threw = true ∨ m.loops = false := by
      simpa [Bool.or_eq_true] using hleaves
    rcases hcautious hleaves with hprivate | hawake
    · refine hM.calms ⟨⟨{ signalling := (s.threads t).signalling }, ?_, rfl, ?_, rfl⟩, ?_, rfl, rfl,
        rfl⟩ ?_
      · simp [leave, pushPrivate, setThread]
      · exact fun hfalse => absurd hfalse Bool.false_ne_true
      · simp [leave, pushPrivate, setThread, hprivate]
      · rw [hplace]
        rfl
    · refine ⟨fun _ _ u hu => absurd hu ?_, hhalted.update rfl rfl id id id, fun h => ?_⟩
      · by_cases hut : u = t
        · rw [hut, leave, setThread_self]
          exact Place.not_drowsy_of_calm rfl
        · rw [leave, setThread_of_ne hut, pushPrivate, setThread_of_ne hut]
          exact hawake u
      · exact (halone h).update rfl fun hfalse => absurd hfalse Bool.false_ne_true
  · split
    · rename_i hprivate
      refine hM.update (t := t) rfl ?_ rfl rfl rfl ?_ id ?_ halone
      · simp [pushPrivate, setThread, hprivate]
      · rw [hplace]
        rfl
      · simp [Place.Drowsy, Place.Sleeps, Place.isWoken]
    · exact doOne_mindful (hB.pushPrivate hplace) hentering hhalted halone

theorem Mindful.goOn (hM : s.Mindful oneThread) (hB : s.Books) {e : Event ι ω}
    (hcautious : s.Cautious oneThread e) (hs : s.goOn oneThread e = some s') :
    s'.Mindful oneThread := by
  cases e with
  | look t =>
      simp only [Scheduler.goOn] at hs
      split at hs
      · rename_i m hplace
        exact Option.some.inj hs ▸ doOne_mindful hB hplace hM.halted hM.alone
      · cases hs
  | spurious t =>
      simp only [Scheduler.goOn] at hs
      split at hs
      · rename_i m hplace
        refine Option.some.inj hs ▸ hM.awakened (u := t) ?_ ?_ ?_ rfl rfl rfl rfl
        · rw [hplace]
          rfl
        · simp [go, hplace, Place.wake]
        · intro v hv
          rw [go, setThread_of_ne hv]
      · cases hs
  | wake t =>
      simp only [Scheduler.goOn] at hs
      split at hs
      · rename_i m hplace
        split at hs
        · refine Option.some.inj hs ▸ doRunOne_mindful (hB.awake hplace) (by simp [go]) ?_ ?_
          · exact hM.halted.update rfl rfl id id id
          · exact fun h => (hM.alone h).update rfl fun _ => by rw [hplace]; rfl
        · rename_i hsignalled
          exact Option.some.inj hs ▸ hM.asleepAgain hplace hsignalled
      · cases hs
  | runTask t ready =>
      simp only [Scheduler.goOn] at hs
      split at hs
      · rename_i m blocks hplace
        split at hs
        · rename_i hready
          have hthreads := runTask_threads t m ready { s with
            reactorOps := s.reactorOps -
              (ready.filterMap Operation.handler? : Multiset ω) }
          refine Option.some.inj hs ▸ afterTask_mindful (hB.runTask hplace hready) ?_ ?_ ?_
          · rw [hthreads, Function.update_self]
          · exact hM.halted.update hthreads rfl id (fun _ => rfl) id
          · exact fun h => (hM.alone h).update hthreads fun _ => by rw [hplace]; rfl
        · cases hs
      · cases hs
  | performIo t ops =>
      simp only [Scheduler.goOn] at hs
      split at hs
      · rename_i m hplace
        split at hs
        · exact Option.some.inj hs ▸ hM.calms (doComplete_calms hplace ops) (by rw [hplace]; rfl)
        · cases hs
      · cases hs
  | finish t threw =>
      simp only [Scheduler.goOn] at hs
      split at hs
      · rename_i m op hplace
        split at hs
        · cases hs
        · exact Option.some.inj hs ▸ hM.calms (finish_calms hplace threw) (by rw [hplace]; rfl)
      · cases hs
  | unwind t =>
      simp only [Scheduler.goOn] at hs
      split at hs
      · rename_i m threw hplace
        exact Option.some.inj hs ▸ hM.unwinds hB hplace (hcautious m threw hplace)
      · cases hs
  | push t =>
      simp only [Scheduler.goOn] at hs
      split at hs
      · rename_i ops next hplace
        have hresumes : next.resumes = true := by
          have htidy := hB.tidy t
          rw [Thread.Tidy, hplace] at htidy
          exact htidy.1
        refine Option.some.inj hs ▸ wakeOneThreadAndUnlock_mindful (hB.push hplace) ?_ ?_
        · exact hM.halted.update rfl rfl id id fun h =>
            Place.not_drowsy_of_calm (Place.calm_of_resumes hresumes) (.inl h)
        · exact fun h => (hM.alone h).update rfl fun hr => by rw [hplace]; exact hr
      · cases hs
  | halt t =>
      simp only [Scheduler.goOn] at hs
      split at hs
      · rename_i next hplace
        have htidy := hB.tidy t
        rw [Thread.Tidy, hplace] at htidy
        refine Option.some.inj hs ▸ stopAllThreads_mindful (hB.halt hplace) ?_
        exact fun h => (hM.alone h).update rfl fun hr => by rw [hplace]; exact hr
      · cases hs
  | _ => cases hs

theorem Mindful.act (hM : s.Mindful oneThread) (hB : s.Books) {e : Event ι ω}
    (hcautious : s.Cautious oneThread e)
    (hprogram : (s.threads e.thread).place.inProgram = true)
    (hs : s.act oneThread e = some s') : s'.Mindful oneThread := by
  have hcalm := Place.calm_of_inProgram hprogram
  cases e with
  | call t m =>
      simp only [Scheduler.act] at hs
      split at hs
      · have hone : oneThread = true → s'.Alone := by
          intro h u v hu hv
          have hself : ∀ w, (s'.threads w).place.inRun = true → w = t := by
            intro w hw
            by_contra hwt
            rw [← Option.some.inj hs, go, setThread_of_ne hwt, hcautious h w] at hw
            cases hw
          rw [hself u hu, hself v hv]
        rw [← Option.some.inj hs] at hone ⊢
        refine hM.update (t := t) rfl id rfl rfl rfl hcalm id ?_ hone
        by_cases hwork : s.outstandingWork = 0
        · rw [if_pos hwork]
          exact Place.not_drowsy_of_calm rfl
        · rw [if_neg hwork]
          simp [Place.Drowsy, Place.Sleeps, Place.isWoken]
      · cases hs
  | post t ops isContinuation =>
      exact Option.some.inj hs ▸
        hM.calms (postImmediateCompletions_calms oneThread hcalm ops _) hcalm
  | dispatch t op =>
      have hpushing := postImmediateCompletions_calms false hcalm [op] false
      exact Option.some.inj hs ▸ hM.calms hpushing hcalm
  | startOp t op =>
      have hsame : Calms t s s' := Option.some.inj hs ▸
        ⟨(calms_refl hcalm).threads, rfl, rfl, rfl, rfl⟩
      exact hM.calms hsame hcalm
  | cancelOps t ops =>
      simp only [Scheduler.act] at hs
      split at hs
      · have hposted := postDeferredCompletions_calms oneThread
          (s := { s with reactorOps := s.reactorOps - (ops : Multiset ω) }) hcalm ops
        have hsame : Calms t s s' := Option.some.inj hs ▸
          ⟨hposted.threads, hposted.opQueue, hposted.stopped, hposted.signalled,
            hposted.taskInterrupted⟩
        exact hM.calms hsame hcalm
      · cases hs
  | workStarted t =>
      have hsame : Calms t s s' := Option.some.inj hs ▸
        ⟨(calms_refl hcalm).threads, rfl, rfl, rfl, rfl⟩
      exact hM.calms hsame hcalm
  | workFinished t =>
      simp only [Scheduler.act] at hs
      split at hs
      · have hfinished := workFinished_calms (s := { s with guards := s.guards - 1 }) hcalm
        have hsame : Calms t s s' := Option.some.inj hs ▸
          ⟨hfinished.threads, hfinished.opQueue, hfinished.stopped, hfinished.signalled,
            hfinished.taskInterrupted⟩
        exact hM.calms hsame hcalm
      · cases hs
  | stop t => exact Option.some.inj hs ▸ stopAllThreads_mindful hB hM.alone
  | restart t =>
      refine Option.some.inj hs ▸ ⟨fun hne _ u hu => ?_, fun h => absurd h Bool.false_ne_true,
        hM.alone⟩
      cases hstopped : s.stopped with
      | false => exact hM.watched hne hstopped u hu
      | true =>
          obtain ⟨hsignalled, hawake⟩ := hM.halted hstopped
          exact .inr ⟨hsignalled, .inl ⟨u, hu.resolve_left (hawake u)⟩⟩
  | initTask t =>
      simp only [Scheduler.act, Option.some.injEq] at hs
      rw [← hs]
      split
      · exact hM
      · rename_i htask
        exact wakeOneThreadAndUnlock_mindful (hB.initTask t htask) hM.halted hM.alone
  | finish t threw =>
      simp only [Scheduler.act] at hs
      exact hM.goOn hB hcautious hs
  | _ => cases hs

omit [DecidableEq ω] in
theorem Mindful.signal (hM : s.Mindful oneThread) {woken : Option ι}
    (hs : s.signal t woken = some s') : s'.Mindful oneThread := by
  have hplace : ∀ v, ((setThread t { s.threads t with signalling := false } s).threads v).place =
      (s.threads v).place := by
    intro v
    by_cases hv : v = t
    · rw [hv, setThread_self]
    · rw [setThread_of_ne hv]
  unfold Scheduler.signal at hs
  cases woken with
  | none =>
      dsimp only at hs
      split at hs
      · rename_i hnone
        rw [← Option.some.inj hs]
        refine ⟨fun hne hopen u hu => ?_, hM.halted.mono rfl id fun u hu => ?_,
          fun h => (hM.alone h).mono fun u hu => ?_⟩
        · rw [hplace] at hu
          rcases hM.watched hne hopen u hu with ⟨v, hv⟩ | ⟨hsig, ⟨v, hv⟩ | ⟨-, w, hw⟩⟩
          · exact .inl ⟨v, by rwa [hplace]⟩
          · exact .inr ⟨hsig, .inl ⟨v, by rwa [hplace]⟩⟩
          · have hfalse := hnone w
            rw [hplace, hw] at hfalse
            cases hfalse
        · rwa [hplace] at hu
        · rwa [hplace] at hu
      · cases hs
  | some u =>
      dsimp only at hs
      split at hs
      · rename_i hblocked
        rw [hplace] at hblocked
        refine Option.some.inj hs ▸ hM.awakened hblocked ?_ ?_ rfl rfl rfl rfl
        · rw [go, setThread_self, hplace]
        · intro v hv
          rw [go, setThread_of_ne hv, hplace]
      · cases hs

theorem Mindful.step (hM : s.Mindful oneThread) (hB : s.Books) {e : Event ι ω}
    (hcautious : s.Cautious oneThread e) (hs : s.step oneThread e = some s') :
    s'.Mindful oneThread := by
  unfold Scheduler.step at hs
  split at hs
  · split at hs
    · exact hM.signal hs
    · cases hs
  · split at hs
    · rename_i hprogram
      exact hM.act hB hcautious hprogram hs
    · exact hM.goOn hB hcautious hs

end Steps

end Scheduler

end AsioSamples.Asio
