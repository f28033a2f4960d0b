import AsioSamples.Asio.SchedulerBooks

/-!
# What the scheduler has to do

Each step of the threads keeps the books of the scheduler, and so `outstanding_work_` tells
whether there is anything left to do.
-/

namespace AsioSamples.Asio

open Framework

variable {ι ω : Type}

namespace Scheduler

section Steps

variable [DecidableEq ω] [DecidableEq ι] [Fintype ι] {s s' : Scheduler ι ω} {t : ι}

theorem Books.postImmediateCompletions (hB : s.Books)
    (hprogram : (s.threads t).place.inProgram = true) (oneThread : Bool) (ops : List ω)
    (isContinuation : Bool) :
    (s.postImmediateCompletions oneThread t ops isContinuation).Books := by
  have htidy := hB.tidy t
  unfold Scheduler.postImmediateCompletions
  dsimp only
  split
  · rename_i hprivate
    refine hB.update t _ rfl (fun a => ?_) ?_ rfl rfl ?_
    · simp only [copies, queued, Thread.ops, setThread, List.count_append, List.filterMap_append,
        List.filterMap_map, Operation.handler?_comp_handler, List.filterMap_some]
      omega
    · simp [balance, setThread]
      omega
    · cases hplace : (s.threads t).place with
      | running m op =>
          cases op with
          | none => simp [hplace, Place.inProgram] at hprogram
          | some op =>
              simp only [Thread.Tidy, hplace, Place.Allows] at htidy ⊢
              rw [List.filterMap_append, List.length_append, List.filterMap_map,
                Operation.handler?_comp_handler, List.filterMap_some]
              omega
      | outside => simp [hplace, Place.inScheduler] at hprivate
      | _ => simp [hplace, Place.inProgram] at hprogram
  · refine hB.update t _ rfl (fun a => ?_) ?_ rfl rfl
      ⟨Place.resumes_of_inProgram hprogram, htidy⟩
    · simp [copies, queued, Thread.ops, go, setThread]
      omega
    · simp [balance, go, setThread]
      omega

/-- The first operation that is ready is completed at once, and the thread takes the others. -/
theorem Books.performIo (hB : s.Books) (thread : Thread ω) {m : Mode}
    (hplace : (s.threads t).place = .performing m) {op : ω} {rest : List ω}
    (hops : ((op :: rest : List ω) : Multiset ω) ≤ s.reactorOps)
    (hrest : ∀ a, thread.place.pushed.count a + thread.ops.count a = rest.count a)
    (hbusy : thread.place.busy = 1) (hwork : thread.privateOutstandingWork = 0)
    (hwaits : thread.place.waits = 0) (htasks : thread.place.tasks = 0) (htidy : thread.Tidy) :
    Books { s with
      reactorOps := s.reactorOps - ((op :: rest : List ω) : Multiset ω)
      invoked := s.invoked ++ [op]
      threads := Function.update s.threads t thread } := by
  have hold := hB.tidy t
  rw [Thread.Tidy, hplace] at hold
  refine hB.update t _ rfl (fun a => ?_) ?_ ?_ ?_ htidy
  · have hle := Multiset.count_le_of_le a hops
    have hcons : (op :: rest).count a = [op].count a + rest.count a := by
      rw [← List.count_append]
      rfl
    have hrest := hrest a
    rw [Multiset.coe_count, hcons] at hle
    simp only [copies, queued, Thread.ops, hplace, hold.2, Place.pushed, Multiset.count_sub,
      Multiset.coe_count, hcons, List.count_append, List.filterMap_nil, List.count_nil] at hrest ⊢
    omega
  · simp only [balance, hplace, hold.1, hbusy, hwork, Place.busy, List.length_append,
      List.length_singleton]
    omega
  · simp [hplace, hwaits]
  · simp [hplace, htasks]

theorem Books.doComplete (hB : s.Books) {m : Mode} (hplace : (s.threads t).place = .performing m)
    (oneThread : Bool) {ops : List ω} (hops : (ops : Multiset ω) ≤ s.reactorOps) :
    (s.doComplete oneThread t m ops).Books := by
  have htidy := hB.tidy t
  rw [Thread.Tidy, hplace] at htidy
  obtain ⟨hwork, hprivate⟩ := htidy
  unfold Scheduler.doComplete
  cases ops with
  | nil =>
      refine hB.update t _ rfl (fun a => ?_) ?_ ?_ ?_ ⟨by rw [hwork], hprivate⟩
      · simp [copies, queued, Thread.ops, hplace, setThread]
      · simp [balance, hplace, setThread]
        omega
      · simp [hplace, setThread]
      · simp [hplace, setThread]
  | cons op rest =>
      dsimp only
      unfold Scheduler.postDeferredCompletions
      dsimp only
      split
      · rename_i hrest
        apply hB.performIo _ hplace hops
        · simp [Thread.ops, hprivate, hrest]
        · rfl
        · exact hwork
        · rfl
        · rfl
        · simp [Thread.Tidy, hwork]
      · split
        · have hheld := hB.performIo { s.threads t with
            place := .running m (some op), privateOpQueue := rest.map .handler } hplace hops
            (by simp [Thread.ops]) rfl hwork rfl rfl (by simp [Thread.Tidy, hwork])
          simpa [go, setThread, hprivate] using hheld
        · have hpushing := hB.performIo { s.threads t with
            place := .pushing rest (.running m (some op)) } hplace hops
            (by simp [Thread.ops, hprivate]) rfl hwork rfl rfl (by simp [Thread.Tidy, hwork])
          simpa [go, setThread] using hpushing

theorem Books.workFinished (hB : s.Books) (hresumes : (s.threads t).place.resumes = true)
    (hguards : 0 < s.guards) :
    (workFinished t { s with guards := s.guards - 1 }).Books := by
  have hguard : ((s.guards - 1 : ℕ) : ℤ) = s.guards - 1 := by omega
  unfold Scheduler.workFinished
  dsimp only
  split
  · refine hB.update t _ rfl (fun _ => rfl) ?_ rfl rfl ⟨hresumes, hB.tidy t⟩
    simp only [balance, go, setThread, Place.busy, hguard]
    omega
  · refine ⟨hB.located, ?_, hB.waiters, hB.tasks, hB.tidy⟩
    have hwork := hB.work
    dsimp only
    omega

theorem Books.finish (hB : s.Books) {m : Mode} {op : Option ω}
    (hplace : (s.threads t).place = .running m op) (threw : Bool) :
    (finish t m threw s).Books := by
  have hunwinding : ∀ (work : ℤ) (guards : ℕ),
      work - s.outstandingWork = (s.threads t).privateOutstandingWork - 1 + (guards - s.guards) →
      Books { setThread t { s.threads t with
        place := .unwinding m threw, privateOutstandingWork := 0 } s with
          outstandingWork := work, guards := guards } := by
    intro work guards hworks
    refine hB.update t _ rfl (fun a => ?_) ?_ ?_ ?_ rfl
    · simp [copies, queued, Thread.ops, hplace, setThread]
    · simp only [balance, hplace, setThread, Place.busy]
      omega
    · simp [hplace, setThread]
    · simp [hplace, setThread]
  unfold Scheduler.finish
  dsimp only
  split
  · exact hunwinding _ s.guards (by simp only [setThread]; omega)
  · split
    · apply (hunwinding s.outstandingWork (s.guards + 1) (by omega)).workFinished
      · simp [setThread]
      · exact s.guards.succ_pos
    · exact hunwinding s.outstandingWork s.guards (by omega)

theorem Books.signal (hB : s.Books) {woken : Option ι} (hs : s.signal t woken = some s') :
    s'.Books := by
  have hquiet : (setThread t { s.threads t with signalling := false } s).Books :=
    hB.update t _ rfl (fun _ => rfl) rfl rfl rfl (hB.tidy t)
  unfold Scheduler.signal at hs
  cases woken with
  | none =>
      dsimp only at hs
      split at hs
      · exact Option.some.inj hs ▸ hquiet
      · cases hs
  | some u =>
      dsimp only at hs
      split at hs
      · refine Option.some.inj hs ▸ hquiet.update u _ rfl (fun a => ?_) ?_ ?_ ?_ ?_
        · simp [copies, queued, Thread.ops, go, setThread]
        · simp [balance, go, setThread]
        · simp [go, setThread]
        · simp [go, setThread]
        · simpa [Thread.Tidy] using hquiet.tidy u
      · cases hs

/-- A thread is back from `pthread_cond_wait` for good. -/
theorem Books.awake (hB : s.Books) {m : Mode} (hplace : (s.threads t).place = .woken m) :
    (go t (.entering m) { s with waiters := s.waiters - 1 }).Books := by
  have htidy := hB.tidy t
  rw [Thread.Tidy, hplace] at htidy
  have hpos : 0 < s.waiters := by
    have hle := le_sum_threads (fun u => (s.threads u).place.waits) t
    rw [← hB.waiters, hplace] at hle
    exact hle
  refine hB.update t _ rfl (fun a => ?_) ?_ ?_ ?_ htidy
  · simp [copies, queued, Thread.ops, hplace, go, setThread]
  · simp [balance, hplace, go, setThread]
  · simp [hplace, go, setThread]
    omega
  · simp [hplace, go, setThread]

theorem Books.push (hB : s.Books) {ops : List ω} {next : Place ω}
    (hplace : (s.threads t).place = .pushing ops next) : (go t next { s with
      opQueue := s.opQueue ++ ops.map fun op => .operation (.handler op) }).Books := by
  have htidy := hB.tidy t
  rw [Thread.Tidy, hplace] at htidy
  refine hB.update t _ rfl (fun a => ?_) ?_ ?_ ?_ htidy.2
  · simp [copies, queued, Thread.ops, hplace, go, setThread, Function.comp_def]
    omega
  · simp [balance, hplace, go, setThread]
  · simp [hplace, go, setThread]
  · simp [hplace, go, setThread, Function.comp_def]

theorem Books.halt (hB : s.Books) {next : Place ω}
    (hplace : (s.threads t).place = .stopping next) : (go t next s).Books := by
  have htidy := hB.tidy t
  rw [Thread.Tidy, hplace] at htidy
  refine hB.moves ?_ ?_ ?_ ?_ htidy.2 <;> rw [hplace] <;> rfl

theorem Books.goOn (hB : s.Books) {oneThread : Bool} {e : Event ι ω}
    (hs : s.goOn oneThread e = some s') : s'.Books := by
  cases e with
  | look t =>
      simp only [Scheduler.goOn] at hs
      split at hs
      · rename_i m hplace
        exact Option.some.inj hs ▸ hB.doOne hplace oneThread
      · cases hs
  | spurious t =>
      simp only [Scheduler.goOn] at hs
      split at hs
      · rename_i m hplace
        have htidy := hB.tidy t
        rw [Thread.Tidy, hplace] at htidy
        refine Option.some.inj hs ▸ hB.moves ?_ ?_ ?_ ?_ htidy <;> rw [hplace] <;> rfl
      · cases hs
  | wake t =>
      simp only [Scheduler.goOn] at hs
      split at hs
      · rename_i m hplace
        split at hs
        · exact Option.some.inj hs ▸ (hB.awake hplace).doRunOne (by simp [go]) oneThread
        · have htidy := hB.tidy t
          rw [Thread.Tidy, hplace] at htidy
          refine Option.some.inj hs ▸ hB.moves ?_ ?_ ?_ ?_ htidy <;> rw [hplace] <;> rfl
      · cases hs
  | runTask t ready =>
      simp only [Scheduler.goOn] at hs
      split at hs
      · rename_i m blocks hplace
        split at hs
        · rename_i hready
          refine Option.some.inj hs ▸ (hB.runTask hplace hready).afterTask ?_ oneThread
          simp [Scheduler.runTask, Scheduler.pushPrivate, setThread]
        · cases hs
      · cases hs
  | performIo t ops =>
      simp only [Scheduler.goOn] at hs
      split at hs
      · rename_i m hplace
        split at hs
        · rename_i hops
          exact Option.some.inj hs ▸ hB.doComplete hplace oneThread hops
        · cases hs
      · cases hs
  | finish t threw =>
      simp only [Scheduler.goOn] at hs
      split at hs
      · rename_i m op hplace
        split at hs
        · cases hs
        · exact Option.some.inj hs ▸ hB.finish hplace threw
      · cases hs
  | unwind t =>
      simp only [Scheduler.goOn] at hs
      split at hs
      · rename_i m threw hplace
        exact Option.some.inj hs ▸ hB.unwind hplace oneThread
      · cases hs
  | push t =>
      simp only [Scheduler.goOn] at hs
      split at hs
      · rename_i ops next hplace
        exact Option.some.inj hs ▸ (hB.push hplace).wakeOneThreadAndUnlock
      · cases hs
  | halt t =>
      simp only [Scheduler.goOn] at hs
      split at hs
      · rename_i next hplace
        exact Option.some.inj hs ▸ (hB.halt hplace).stopAllThreads
      · cases hs
  | _ => cases hs

/-- One operation more waits in the reactor, or is about to be pushed. -/
theorem Books.start (hB : s.Books) (t : ι) (op : ω) : Books { s with
    reactorOps := op ::ₘ s.reactorOps
    outstandingWork := s.outstandingWork + 1
    started := s.started ++ [op] } := by
  refine hB.update t (s.threads t) (by simp) (fun a => ?_) ?_ rfl rfl (hB.tidy t)
  · have hcons : (op ::ₘ s.reactorOps).count a = [op].count a + s.reactorOps.count a := by
      rw [← Multiset.singleton_add, Multiset.count_add, ← Multiset.coe_singleton,
        Multiset.coe_count]
    simp only [copies, queued, List.count_append, hcons]
    omega
  · simp [balance]
    omega

theorem Books.postDeferredCompletions (hB : s.Books)
    (hprogram : (s.threads t).place.inProgram = true) (oneThread : Bool) {ops : List ω}
    (hops : (ops : Multiset ω) ≤ s.reactorOps) : (postDeferredCompletions oneThread t ops
      { s with reactorOps := s.reactorOps - (ops : Multiset ω) }).Books := by
  have htidy := hB.tidy t
  have hle : ∀ a, ops.count a ≤ s.reactorOps.count a := by
    intro a
    rw [← Multiset.coe_count]
    exact Multiset.count_le_of_le a hops
  unfold Scheduler.postDeferredCompletions
  dsimp only
  split
  · rename_i hnil
    refine ⟨?_, hB.work, hB.waiters, hB.tasks, hB.tidy⟩
    rw [hnil, Multiset.coe_nil, tsub_zero]
    exact hB.located
  · split
    · rename_i hprivate
      refine hB.update t _ rfl (fun a => ?_) rfl rfl rfl ?_
      · have := hle a
        simp [copies, queued, Thread.ops, setThread]
        omega
      · cases hplace : (s.threads t).place with
        | running m op =>
            cases op with
            | none => simp [hplace, Place.inProgram] at hprogram
            | some op =>
                simp only [Thread.Tidy, hplace, Place.Allows] at htidy ⊢
                rw [List.filterMap_append, List.length_append]
                omega
        | outside => simp [hplace, Place.inScheduler] at hprivate
        | _ => simp [hplace, Place.inProgram] at hprogram
    · refine hB.update t _ rfl (fun a => ?_) rfl rfl rfl
        ⟨Place.resumes_of_inProgram hprogram, htidy⟩
      have := hle a
      simp [copies, queued, Thread.ops, go, setThread]
      omega

theorem Books.initTask (hB : s.Books) (t : ι) (htask : ¬ s.task = true) :
    Books { s with task := true, opQueue := s.opQueue ++ [.task] } := by
  refine hB.update t (s.threads t) (by simp) (fun a => ?_) rfl rfl ?_ (hB.tidy t)
  · simp [copies, queued, List.filterMap_cons]
  · simp [htask]
    omega

theorem Books.act (hB : s.Books) {oneThread : Bool} {e : Event ι ω}
    (hprogram : (s.threads e.thread).place.inProgram = true)
    (hs : s.act oneThread e = some s') : s'.Books := by
  cases e with
  | call t m =>
      simp only [Scheduler.act] at hs
      split at hs
      · rename_i hplace
        have htidy := hB.tidy t
        rw [Thread.Tidy, hplace] at htidy
        refine Option.some.inj hs ▸ hB.moves ?_ ?_ ?_ ?_ ?_
        all_goals split <;> simp [hplace, htidy.1, htidy.2]
      · cases hs
  | post t ops isContinuation =>
      exact Option.some.inj hs ▸ hB.postImmediateCompletions hprogram oneThread ops isContinuation
  | dispatch t op =>
      have := hB.postImmediateCompletions hprogram false [op] false
      exact Option.some.inj hs ▸ this
  | startOp t op => exact Option.some.inj hs ▸ hB.start t op
  | cancelOps t ops =>
      simp only [Scheduler.act] at hs
      split at hs
      · rename_i hops
        exact Option.some.inj hs ▸ hB.postDeferredCompletions hprogram oneThread hops
      · cases hs
  | workStarted t =>
      have hwork := hB.work
      refine Option.some.inj hs ▸ ⟨hB.located, ?_, hB.waiters, hB.tasks, hB.tidy⟩
      dsimp only
      omega
  | workFinished t =>
      simp only [Scheduler.act] at hs
      split at hs
      · rename_i hguards
        exact Option.some.inj hs ▸
          hB.workFinished (Place.resumes_of_inProgram hprogram) hguards
      · cases hs
  | stop t => exact Option.some.inj hs ▸ hB.stopAllThreads
  | restart t =>
      exact Option.some.inj hs ▸ ⟨hB.located, hB.work, hB.waiters, hB.tasks, hB.tidy⟩
  | initTask t =>
      simp only [Scheduler.act, Option.some.injEq] at hs
      rw [← hs]
      split
      · exact hB
      · rename_i htask
        exact (hB.initTask t htask).wakeOneThreadAndUnlock
  | finish t threw =>
      simp only [Scheduler.act] at hs
      exact hB.goOn hs
  | _ => cases hs

theorem Books.step (hB : s.Books) {oneThread : Bool} {e : Event ι ω}
    (hs : s.step oneThread e = some s') : s'.Books := by
  unfold Scheduler.step at hs
  split at hs
  · split at hs
    · exact hB.signal hs
    · cases hs
  · split at hs
    · rename_i hprogram
      exact hB.act hprogram hs
    · exact hB.goOn hs

end Steps

end Scheduler

namespace Thread

/-- What the thread adds to the work that others know of. -/
def slack (thread : Thread ω) : ℕ :=
  thread.place.pushed.length + thread.ops.length + thread.place.busy -
    thread.privateOutstandingWork

end Thread

/-- A handler of the program runs, or has called a function that has not returned yet. -/
def Place.handles : Place ω → Bool
  | .running _ op => op.isSome
  | .pushing _ next => next.handles
  | .stopping next => next.handles
  | _ => false

theorem Place.work_le {p : Place ω} {q : List (Operation ω)} {work : ℕ} (h : p.Allows q work) :
    work + p.handles.toNat ≤
      p.pushed.length + (q.filterMap Operation.handler?).length + p.busy := by
  induction p with
  | running m op =>
      cases op with
      | none =>
          simp [h.1, h.2, Place.handles]
      | some op => exact Nat.add_le_add_right (h.trans (Nat.le_add_left _ _)) 1
  | pushing ops next ih =>
      have := ih h.2
      simp only [pushed, List.length_append, busy, handles]
      omega
  | stopping next ih => exact ih h.2
  | unwinding m threw =>
      rw [show work = 0 from h]
      exact Nat.zero_le _
  | _ =>
      rw [h.1]
      exact Nat.zero_le _

theorem Thread.Tidy.slack_add {thread : Thread ω} (h : thread.Tidy) :
    thread.slack + thread.privateOutstandingWork =
      thread.place.pushed.length + thread.ops.length + thread.place.busy := by
  have hle := Place.work_le h
  unfold Thread.slack Thread.ops
  omega

theorem Place.work_eq_iff {p : Place ω} {q : List (Operation ω)} {work : ℕ}
    (h : p.Allows q work) :
    work = p.pushed.length + (q.filterMap Operation.handler?).length + p.busy ↔
      p.pushed = [] ∧ q.filterMap Operation.handler? = [] ∧ p.handles = false := by
  induction p with
  | running m op =>
      cases op with
      | none => simp [h.1, h.2, handles]
      | some op =>
          have hle : work ≤ (q.filterMap Operation.handler?).length := h
          simp only [pushed, List.length_nil, busy, handles, Option.isSome_some]
          constructor
          · omega
          · intro hfalse
            cases hfalse.2.2
  | pushing ops next ih =>
      have hle := work_le h.2
      have ih := ih h.2
      simp only [pushed, List.length_append, busy, handles, List.append_eq_nil_iff]
      constructor
      · intro heq
        have hnext := ih.mp (by omega)
        exact ⟨⟨List.length_eq_zero_iff.mp (by omega), hnext.1⟩, hnext.2⟩
      · intro hnil
        have hnext := ih.mpr ⟨hnil.1.2, hnil.2⟩
        rw [hnil.1.1]
        simpa using hnext
  | stopping next ih => exact ih h.2
  | unwinding m threw =>
      rw [show work = 0 from h]
      constructor
      · intro heq
        exact ⟨rfl, List.length_eq_zero_iff.mp (by simpa using heq.symm), rfl⟩
      · intro hnil
        rw [hnil.2.1]
        rfl
  | _ => simp [h.1, h.2, handles]

theorem Thread.Tidy.slack_eq_zero_iff {thread : Thread ω} (h : thread.Tidy) :
    thread.slack = 0 ↔
      thread.place.pushed = [] ∧ thread.ops = [] ∧ thread.place.handles = false := by
  have hadd := h.slack_add
  have heq := Place.work_eq_iff h
  unfold Thread.ops at hadd ⊢
  rw [← heq]
  omega

namespace Scheduler

variable [Fintype ι] {s : Scheduler ι ω}

/-- The operations that have not been invoked. -/
def unfinished (s : Scheduler ι ω) : Multiset ω :=
  s.queued + s.reactorOps + ∑ t, ((s.threads t).place.pushed + (s.threads t).ops : Multiset ω)

theorem Books.outstandingWork_eq (hB : s.Books) : s.outstandingWork =
    (s.queued.length + s.reactorOps.card + s.guards + ∑ t, (s.threads t).slack : ℕ) := by
  have hcard := congrArg Multiset.card hB.located
  have hwork := hB.work
  have hslack : ∑ t, (s.threads t).slack + ∑ t, (s.threads t).privateOutstandingWork =
      ∑ t, ((s.threads t).place.pushed.length + (s.threads t).ops.length) +
        ∑ t, (s.threads t).place.busy := by
    rw [← Finset.sum_add_distrib, ← Finset.sum_add_distrib]
    exact Finset.sum_congr rfl fun t _ => (hB.tidy t).slack_add
  simp only [Multiset.coe_card, Multiset.card_add, Multiset.card_sum] at hcard
  omega

/-- `outstanding_work_` is zero when there is nothing to do and no handler can start anything. -/
theorem Books.outstandingWork_eq_zero_iff (hB : s.Books) : s.outstandingWork = 0 ↔
    s.unfinished = 0 ∧ s.guards = 0 ∧ ∀ t, (s.threads t).place.handles = false := by
  have hslack : ∑ t, (s.threads t).slack = 0 ↔ ∀ t, (s.threads t).place.pushed = [] ∧
      (s.threads t).ops = [] ∧ (s.threads t).place.handles = false := by
    simp only [Finset.sum_eq_zero_iff, Finset.mem_univ, true_implies]
    exact forall_congr' fun t => (hB.tidy t).slack_eq_zero_iff
  have hunfinished : s.unfinished = 0 ↔ s.queued = [] ∧ s.reactorOps = 0 ∧
      ∀ t, (s.threads t).place.pushed = [] ∧ (s.threads t).ops = [] := by
    simp [unfinished, Finset.sum_eq_zero_iff, and_assoc]
  rw [hB.outstandingWork_eq, hunfinished, Int.natCast_eq_zero]
  simp only [Nat.add_eq_zero_iff, hslack, List.length_eq_zero_iff, Multiset.card_eq_zero]
  constructor
  · intro h
    exact ⟨⟨h.1.1.1, h.1.1.2, fun t => ⟨(h.2 t).1, (h.2 t).2.1⟩⟩, h.1.2, fun t => (h.2 t).2.2⟩
  · intro h
    exact ⟨⟨⟨h.1.1, h.1.2.1⟩, h.2.1⟩, fun t => ⟨(h.1.2.2 t).1, (h.1.2.2 t).2, h.2.2 t⟩⟩

end Scheduler

end AsioSamples.Asio
