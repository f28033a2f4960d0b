import AsioSamples.Framework.Machine

/-!
# The strand

`strand_executor_service` of `boost/asio/detail/impl/strand_executor_service.{hpp,ipp}`, for one
strand that any number of threads use. What happens under the mutex is one step; everything else
that touches the strand is a step of its own, so the threads interleave as they like.
-/

namespace AsioSamples.Asio

open Framework

/-- Where a thread stands in a function of the strand, or in a handler that the strand runs.
`running` is `run_ready_handlers` with the handler it has called, `inlined` a handler that was
called by `dispatch` itself. -/
inductive Frame (ω : Type) where
  | pushing (op : ω)
  | scheduling
  | running (current : Option ω)
  | inlined (op : ω)
  | leaving
  | rescheduling
  deriving DecidableEq

/-- A `strand_impl`, the call stacks of the threads, and the invokers that the executor holds.
`submitted` are the operations that were enqueued and `started` those that were run from the
ready queue, in their order. -/
structure Strand (ι ω : Type) where
  locked : Bool := false
  shutdown : Bool := false
  waitingQueue : List ω := []
  readyQueue : List ω := []
  frames : ι → List (Frame ω) := fun _ => []
  invokers : ℕ := 0
  submitted : List ω := []
  started : List ω := []

namespace Strand

variable {ι ω : Type}

/-- `call_stack<strand_impl>::contains`. -/
def runningInThisThread (t : ι) (s : Strand ι ω) : Bool :=
  (s.frames t).any fun
    | .running _ => true
    | _ => false

/-- The thread runs code of the program, and not of the strand. -/
def inProgram (t : ι) (s : Strand ι ω) : Bool :=
  match s.frames t with
  | [] => true
  | .running (some _) :: _ => true
  | .inlined _ :: _ => true
  | _ => false

variable [DecidableEq ι]

def setFrames (t : ι) (frames : List (Frame ω)) (s : Strand ι ω) : Strand ι ω :=
  { s with frames := Function.update s.frames t frames }

/-- `enqueue`, up to the push on the ready queue, which comes after the mutex is unlocked. -/
def enqueue (t : ι) (op : ω) (s : Strand ι ω) : Strand ι ω :=
  if s.shutdown then s
  else if s.locked then
    { s with waitingQueue := s.waitingQueue ++ [op], submitted := s.submitted ++ [op] }
  else setFrames t (.pushing op :: s.frames t)
    { s with locked := true, submitted := s.submitted ++ [op] }

/-- `push_waiting_to_ready`. -/
def pushWaitingToReady (s : Strand ι ω) : Bool × Strand ι ω :=
  let readyQueue := s.readyQueue ++ s.waitingQueue
  (!readyQueue.isEmpty,
    { s with readyQueue := readyQueue, waitingQueue := [], locked := !readyQueue.isEmpty })

/-- `call` is one of `dispatch`, `post`, `defer` and `execute`. The first may run the function at
once, and so may the last where its executor may block. -/
inductive Event (ι ω : Type) where
  | call (t : ι) (op : ω) (mayInline : Bool)
  | push (t : ι)
  | schedule (t : ι)
  | runInline (t : ι)
  | invoke (t : ι)
  | next (t : ι)
  | finish (t : ι)
  | throw (t : ι)
  | exit (t : ι)
  | reschedule (t : ι)
  | close

/-- The executor takes an invoker from a thread that offers it, and either keeps it until some
thread asks for work, or runs it at once. A handler returns or throws; then the destructor of
`on_invoker_exit` takes over. -/
def step (s : Strand ι ω) : Event ι ω → Option (Strand ι ω)
  | .call t op mayInline =>
    if s.inProgram t then
      if mayInline && s.runningInThisThread t then
        some (setFrames t (.inlined op :: s.frames t) s)
      else some (enqueue t op s)
    else none
  | .push t =>
    match s.frames t with
    | .pushing op :: rest =>
      some (setFrames t (.scheduling :: rest) { s with readyQueue := s.readyQueue ++ [op] })
    | _ => none
  | .schedule t =>
    match s.frames t with
    | .scheduling :: rest => some (setFrames t rest { s with invokers := s.invokers + 1 })
    | _ => none
  | .runInline t =>
    match s.frames t with
    | .scheduling :: rest => some (setFrames t (.running none :: rest) s)
    | _ => none
  | .invoke t =>
    if s.inProgram t ∧ 0 < s.invokers then
      some (setFrames t (.running none :: s.frames t) { s with invokers := s.invokers - 1 })
    else none
  | .next t =>
    match s.frames t with
    | .running none :: rest =>
      match s.readyQueue with
      | [] => some (setFrames t (.leaving :: rest) s)
      | op :: ops => some (setFrames t (.running (some op) :: rest)
          { s with readyQueue := ops, started := s.started ++ [op] })
    | _ => none
  | .finish t =>
    match s.frames t with
    | .running (some _) :: rest => some (setFrames t (.running none :: rest) s)
    | .inlined _ :: rest => some (setFrames t rest s)
    | _ => none
  | .throw t =>
    match s.frames t with
    | .running (some _) :: rest => some (setFrames t (.leaving :: rest) s)
    | .inlined _ :: rest => some (setFrames t rest s)
    | _ => none
  | .exit t =>
    match s.frames t with
    | .leaving :: rest =>
      let more := s.pushWaitingToReady
      some (setFrames t (if more.1 then .rescheduling :: rest else rest) more.2)
    | _ => none
  | .reschedule t =>
    match s.frames t with
    | .rescheduling :: rest => some (setFrames t rest { s with invokers := s.invokers + 1 })
    | _ => none
  | .close => some { s with shutdown := true, waitingQueue := [], readyQueue := [] }

def strand : Machine (Strand ι ω) (Event ι ω) where
  init := {}
  step := step

end Strand

end AsioSamples.Asio
