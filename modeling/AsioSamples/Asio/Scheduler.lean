import AsioSamples.Framework.Machine
import Mathlib.Data.Fintype.Basic
import Mathlib.Data.Multiset.AddSub

/-!
# The scheduler

`scheduler` of `boost/asio/detail/impl/scheduler.ipp` with the event on which its threads wait,
`posix_event`. Any number of threads run handlers, post functions and start operations. What
happens under the mutex is one step, and so is each access to `outstanding_work_`; the threads
interleave as they like. The task is `epoll_reactor`, in which operations wait until they are
ready or cancelled.
-/

namespace AsioSamples.Asio

open Framework

/-- What the scheduler completes: a `descriptor_state` of the reactor, or an operation that the
program has started. -/
inductive Operation (ω : Type) where
  | descriptorState
  | handler (op : ω)
  deriving DecidableEq

def Operation.handler? {ω : Type} : Operation ω → Option ω
  | .descriptorState => none
  | .handler op => some op

/-- An entry of `op_queue_`. One of them is `task_operation_`. -/
inductive Entry (ω : Type) where
  | task
  | operation (o : Operation ω)
  deriving DecidableEq

inductive Mode where
  | run
  | runOne
  | poll
  | pollOne
  deriving DecidableEq

def Mode.polls : Mode → Bool
  | .poll => true
  | .pollOne => true
  | _ => false

def Mode.loops : Mode → Bool
  | .run => true
  | .poll => true
  | _ => false

/-- Where a thread stands. It is about to take the mutex in `entering`, in `pthread_cond_wait` in
`blocked`, and back from there without the mutex in `woken`. `pushing` and `stopping` are the ends
of functions that have touched `outstanding_work_` and now take the mutex. -/
inductive Place (ω : Type) where
  | outside
  | entering (m : Mode)
  | blocked (m : Mode)
  | woken (m : Mode)
  | inTask (m : Mode) (blocks : Bool)
  | performing (m : Mode)
  | running (m : Mode) (op : Option ω)
  | unwinding (m : Mode) (threw : Bool)
  | pushing (ops : List ω) (next : Place ω)
  | stopping (next : Place ω)
  deriving DecidableEq

namespace Place

variable {ω : Type}

/-- The thread runs code of the program: its own, or a handler. -/
def inProgram : Place ω → Bool
  | .outside => true
  | .running _ (some _) => true
  | _ => false

/-- `thread_call_stack::contains`, for a thread that runs code of the program. -/
def inScheduler : Place ω → Bool
  | .outside => false
  | _ => true

def isBlocked : Place ω → Bool
  | .blocked _ => true
  | _ => false

def wake : Place ω → Place ω
  | .blocked m => .woken m
  | p => p

end Place

/-- A thread with its `thread_info`. It is `signalling` when it has released the mutex in order to
call `pthread_cond_signal`. -/
structure Thread (ω : Type) where
  place : Place ω := .outside
  privateOpQueue : List (Operation ω) := []
  privateOutstandingWork : ℕ := 0
  signalling : Bool := false
  deriving DecidableEq

/-- `signalled` and `waiters` are `state_` of the event. `started` are the operations for which
work was started, `invoked` those whose handlers were called. -/
structure Scheduler (ι ω : Type) where
  opQueue : List (Entry ω) := []
  outstandingWork : ℤ := 0
  stopped : Bool := false
  task : Bool := false
  taskInterrupted : Bool := true
  signalled : Bool := false
  waiters : ℕ := 0
  threads : ι → Thread ω := fun _ => {}
  reactorOps : Multiset ω := 0
  guards : ℕ := 0
  started : List ω := []
  invoked : List ω := []

namespace Scheduler

variable {ι ω : Type} [DecidableEq ι]

def setThread (t : ι) (thread : Thread ω) (s : Scheduler ι ω) : Scheduler ι ω :=
  { s with threads := Function.update s.threads t thread }

@[simp] theorem setThread_self (t : ι) (thread : Thread ω) (s : Scheduler ι ω) :
    (setThread t thread s).threads t = thread := Function.update_self ..

theorem setThread_of_ne {t u : ι} (h : u ≠ t) (thread : Thread ω) (s : Scheduler ι ω) :
    (setThread t thread s).threads u = s.threads u := Function.update_of_ne h ..

def go (t : ι) (place : Place ω) (s : Scheduler ι ω) : Scheduler ι ω :=
  setThread t { s.threads t with place := place } s

/-- `unlock_and_signal_one`, and `maybe_unlock_and_signal_one` but for its result. -/
def unlockAndSignalOne (t : ι) (s : Scheduler ι ω) : Scheduler ι ω :=
  let s := { s with signalled := true }
  if 0 < s.waiters then setThread t { s.threads t with signalling := true } s else s

def interruptTask (s : Scheduler ι ω) : Scheduler ι ω :=
  if !s.taskInterrupted && s.task then { s with taskInterrupted := true } else s

def wakeOneThreadAndUnlock (t : ι) (s : Scheduler ι ω) : Scheduler ι ω :=
  let woken := unlockAndSignalOne t s
  if 0 < s.waiters then woken else interruptTask woken

def stopAllThreads (s : Scheduler ι ω) : Scheduler ι ω :=
  interruptTask { s with
    stopped := true
    signalled := true
    threads := fun u => { s.threads u with place := (s.threads u).place.wake } }

/-- The `thread_info` goes with the function. -/
def leave (t : ι) (s : Scheduler ι ω) : Scheduler ι ω :=
  setThread t { signalling := (s.threads t).signalling } s

/-- What `complete` does first. -/
def complete (t : ι) (m : Mode) (s : Scheduler ι ω) : Operation ω → Scheduler ι ω
  | .descriptorState => go t (.performing m) s
  | .handler op => go t (.running m (some op)) { s with invoked := s.invoked ++ [op] }

def execute (oneThread : Bool) (t : ι) (m : Mode) (o : Operation ω) (rest : List (Entry ω))
    (s : Scheduler ι ω) : Scheduler ι ω :=
  let s := complete t m { s with opQueue := rest } o
  if !rest.isEmpty && !oneThread then wakeOneThreadAndUnlock t s else s

/-- `do_run_one` up to where it releases the mutex. -/
def doRunOne (oneThread : Bool) (t : ι) (m : Mode) (s : Scheduler ι ω) : Scheduler ι ω :=
  if s.stopped then leave t s
  else
    match s.opQueue with
    | [] => go t (.blocked m) { s with signalled := false, waiters := s.waiters + 1 }
    | .task :: rest =>
      let moreHandlers := !rest.isEmpty
      let s := go t (.inTask m !moreHandlers)
        { s with opQueue := rest, taskInterrupted := moreHandlers }
      if moreHandlers && !oneThread then unlockAndSignalOne t s else s
    | .operation o :: rest => execute oneThread t m o rest s

def doPollOne (oneThread : Bool) (t : ι) (m : Mode) (s : Scheduler ι ω) : Scheduler ι ω :=
  if s.stopped then leave t s
  else
    match s.opQueue with
    | [] => leave t s
    | .task :: rest => go t (.inTask m false) { s with opQueue := rest }
    | .operation o :: rest => execute oneThread t m o rest s

def pollAfterTask (oneThread : Bool) (t : ι) (m : Mode) (s : Scheduler ι ω) :
    Scheduler ι ω :=
  match s.opQueue with
  | [] => leave t s
  | .task :: _ => unlockAndSignalOne t (leave t s)
  | .operation o :: rest => execute oneThread t m o rest s

def doOne (oneThread : Bool) (t : ι) (m : Mode) (s : Scheduler ι ω) : Scheduler ι ω :=
  if m.polls then doPollOne oneThread t m s else doRunOne oneThread t m s

def afterTask (oneThread : Bool) (t : ι) (m : Mode) (s : Scheduler ι ω) : Scheduler ι ω :=
  if m.polls then pollAfterTask oneThread t m s else doRunOne oneThread t m s

/-- The private queue of the thread is pushed, and `last` behind it. The thread is where it takes
the mutex. -/
def pushPrivate (t : ι) (m : Mode) (last : List (Entry ω)) (s : Scheduler ι ω) : Scheduler ι ω :=
  let thread := s.threads t
  setThread t { place := .entering m, signalling := thread.signalling }
    { s with opQueue := s.opQueue ++ (thread.privateOpQueue.map .operation ++ last) }

/-- `task_->run`, and the destructor of `task_cleanup`. -/
def runTask (t : ι) (m : Mode) (ready : List (Operation ω)) (s : Scheduler ι ω) :
    Scheduler ι ω :=
  let thread := s.threads t
  let s := setThread t { thread with privateOpQueue := thread.privateOpQueue ++ ready } s
  pushPrivate t m [.task] { s with
    outstandingWork := s.outstandingWork + thread.privateOutstandingWork
    taskInterrupted := true }

/-- `post_immediate_completions`, and `post_immediate_completion` for one operation. -/
def postImmediateCompletions (oneThread : Bool) (t : ι) (ops : List ω) (isContinuation : Bool)
    (s : Scheduler ι ω) : Scheduler ι ω :=
  let thread := s.threads t
  let s := { s with started := s.started ++ ops }
  if (oneThread || isContinuation) && thread.place.inScheduler then
    setThread t { thread with
      privateOutstandingWork := thread.privateOutstandingWork + ops.length
      privateOpQueue := thread.privateOpQueue ++ ops.map .handler } s
  else
    go t (.pushing ops thread.place) { s with outstandingWork := s.outstandingWork + ops.length }

def postDeferredCompletions (oneThread : Bool) (t : ι) (ops : List ω) (s : Scheduler ι ω) :
    Scheduler ι ω :=
  let thread := s.threads t
  if ops = [] then s
  else if oneThread && thread.place.inScheduler then
    setThread t { thread with privateOpQueue := thread.privateOpQueue ++ ops.map .handler } s
  else go t (.pushing ops thread.place) s

/-- `descriptor_state::do_complete`, where `perform_io` has completed `ops`. -/
def doComplete [DecidableEq ω] (oneThread : Bool) (t : ι) (m : Mode) (ops : List ω)
    (s : Scheduler ι ω) : Scheduler ι ω :=
  let s := { s with reactorOps := s.reactorOps - (ops : Multiset ω) }
  match ops with
  | [] =>
    let thread := s.threads t
    setThread t { thread with
      place := .running m none
      privateOutstandingWork := thread.privateOutstandingWork + 1 } s
  | first :: rest =>
    postDeferredCompletions oneThread t rest
      (go t (.running m (some first)) { s with invoked := s.invoked ++ [first] })

/-- `--outstanding_work_`, after which the thread may have to call `stop`. -/
def workFinished (t : ι) (s : Scheduler ι ω) : Scheduler ι ω :=
  let s := { s with outstandingWork := s.outstandingWork - 1 }
  if s.outstandingWork = 0 then go t (.stopping (s.threads t).place) s else s

/-- The destructor of `work_cleanup`, up to where it takes the mutex. -/
def finish (t : ι) (m : Mode) (threw : Bool) (s : Scheduler ι ω) : Scheduler ι ω :=
  let thread := s.threads t
  let work := thread.privateOutstandingWork
  let s := setThread t
    { thread with place := .unwinding m threw, privateOutstandingWork := 0 } s
  if 1 < work then { s with outstandingWork := s.outstandingWork + (work - 1) }
  else if work < 1 then workFinished t s
  else s

/-- The rest of `work_cleanup`, and what the caller of `do_run_one` or `do_poll_one` does next. -/
def unwind (oneThread : Bool) (t : ι) (m : Mode) (threw : Bool) (s : Scheduler ι ω) :
    Scheduler ι ω :=
  let pushed := pushPrivate t m [] s
  if threw || !m.loops then leave t pushed
  else if (s.threads t).privateOpQueue = [] then pushed
  else doOne oneThread t m pushed

inductive Event (ι ω : Type) where
  | call (t : ι) (m : Mode)
  | look (t : ι)
  | spurious (t : ι)
  | wake (t : ι)
  | runTask (t : ι) (ready : List (Operation ω))
  | performIo (t : ι) (ops : List ω)
  | finish (t : ι) (threw : Bool)
  | unwind (t : ι)
  | post (t : ι) (ops : List ω) (isContinuation : Bool)
  | dispatch (t : ι) (op : ω)
  | push (t : ι)
  | halt (t : ι)
  | startOp (t : ι) (op : ω)
  | cancelOps (t : ι) (ops : List ω)
  | workStarted (t : ι)
  | workFinished (t : ι)
  | stop (t : ι)
  | restart (t : ι)
  | initTask (t : ι)
  | signal (t : ι) (woken : Option ι)
  deriving DecidableEq

def Event.thread : Event ι ω → ι
  | .call t _ | .look t | .spurious t | .wake t | .runTask t _ | .performIo t _ | .finish t _
  | .unwind t | .post t _ _ | .dispatch t _ | .push t | .halt t | .startOp t _
  | .cancelOps t _ | .workStarted t | .workFinished t | .stop t | .restart t | .initTask t
  | .signal t _ => t

variable [DecidableEq ω]

/-- The steps of a thread within the scheduler. A thread may come back from
`pthread_cond_wait` without a reason; once it has the mutex it waits again unless the event is
signalled. The task returns whenever it likes, with some operations that are ready. -/
def goOn (oneThread : Bool) (s : Scheduler ι ω) : Event ι ω → Option (Scheduler ι ω)
  | .look t =>
    match (s.threads t).place with
    | .entering m => some (doOne oneThread t m s)
    | _ => none
  | .spurious t =>
    match (s.threads t).place with
    | .blocked m => some (go t (.woken m) s)
    | _ => none
  | .wake t =>
    match (s.threads t).place with
    | .woken m =>
      if s.signalled then
        some (doRunOne oneThread t m (go t (.entering m) { s with waiters := s.waiters - 1 }))
      else some (go t (.blocked m) s)
    | _ => none
  | .runTask t ready =>
    let ops : Multiset ω := ready.filterMap Operation.handler?
    match (s.threads t).place with
    | .inTask m _ =>
      if ops ≤ s.reactorOps then
        some (afterTask oneThread t m
          (runTask t m ready { s with reactorOps := s.reactorOps - ops }))
      else none
    | _ => none
  | .performIo t ops =>
    match (s.threads t).place with
    | .performing m =>
      if (ops : Multiset ω) ≤ s.reactorOps then some (doComplete oneThread t m ops s) else none
    | _ => none
  | .finish t threw =>
    match (s.threads t).place with
    | .running m op => if op = none ∧ threw then none else some (finish t m threw s)
    | _ => none
  | .unwind t =>
    match (s.threads t).place with
    | .unwinding m threw => some (unwind oneThread t m threw s)
    | _ => none
  | .push t =>
    match (s.threads t).place with
    | .pushing ops next =>
      some (wakeOneThreadAndUnlock t (go t next
        { s with opQueue := s.opQueue ++ ops.map fun op => .operation (.handler op) }))
    | _ => none
  | .halt t =>
    match (s.threads t).place with
    | .stopping next => some (stopAllThreads (go t next s))
    | _ => none
  | _ => none

def act (oneThread : Bool) (s : Scheduler ι ω) : Event ι ω → Option (Scheduler ι ω)
  | .call t m =>
    if (s.threads t).place = .outside then
      some (go t (if s.outstandingWork = 0 then .stopping .outside else .entering m) s)
    else none
  | .post t ops isContinuation => some (postImmediateCompletions oneThread t ops isContinuation s)
  | .dispatch t op =>
    some (go t (.pushing [op] (s.threads t).place)
      { s with outstandingWork := s.outstandingWork + 1, started := s.started ++ [op] })
  | .startOp _ op =>
    some { s with
      reactorOps := op ::ₘ s.reactorOps
      outstandingWork := s.outstandingWork + 1
      started := s.started ++ [op] }
  | .cancelOps t ops =>
    if (ops : Multiset ω) ≤ s.reactorOps then
      some (postDeferredCompletions oneThread t ops
        { s with reactorOps := s.reactorOps - (ops : Multiset ω) })
    else none
  | .workStarted _ =>
    some { s with outstandingWork := s.outstandingWork + 1, guards := s.guards + 1 }
  | .workFinished t =>
    if 0 < s.guards then some (workFinished t { s with guards := s.guards - 1 }) else none
  | .stop _ => some (stopAllThreads s)
  | .restart _ => some { s with stopped := false }
  | .initTask t =>
    some (if s.task then s
      else wakeOneThreadAndUnlock t { s with task := true, opQueue := s.opQueue ++ [.task] })
  | .finish t threw => goOn oneThread s (.finish t threw)
  | _ => none

def signal [Fintype ι] (t : ι) (woken : Option ι) (s : Scheduler ι ω) :
    Option (Scheduler ι ω) :=
  let s := setThread t { s.threads t with signalling := false } s
  match woken with
  | some u =>
    if (s.threads u).place.isBlocked then some (go u (s.threads u).place.wake s) else none
  | none => if ∀ u, (s.threads u).place.isBlocked = false then some s else none

def step [Fintype ι] (oneThread : Bool) (s : Scheduler ι ω) (e : Event ι ω) :
    Option (Scheduler ι ω) :=
  if (s.threads e.thread).signalling then
    match e with
    | .signal t woken => signal t woken s
    | _ => none
  else if (s.threads e.thread).place.inProgram then act oneThread s e
  else goOn oneThread s e

end Scheduler

end AsioSamples.Asio
