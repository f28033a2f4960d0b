import AsioSamples.Asio.TimerReady
import AsioSamples.Framework.Simulation
import Mathlib.Data.Int.Order.Basic

/-!
# The timers of the reactor

`epoll_reactor` drives the timer queue: it arms the timer descriptor for the earliest expiry,
and when the descriptor becomes readable it posts the waits that have ended. Times are in
nanoseconds. Here the reactor is compared with what it is for, a store of outstanding waits.
-/

namespace AsioSamples.Asio

open Framework

variable {τ ω κ : Type} [DecidableEq τ] [DecidableEq ω] [DecidableEq κ]

def toUsec (d maxDuration : ℤ) : ℤ :=
  if d ≤ 0 then 0
  else
    let usec := d / 1000
    if usec = 0 then 1 else if usec > maxDuration then maxDuration else usec

namespace TimerQueue

def waitDurationUsec (maxDuration now : ℤ) (q : TimerQueue ℤ τ ω) : ℤ :=
  match q.heap with
  | [] => maxDuration
  | entry :: _ => toUsec (entry.time - now) maxDuration

end TimerQueue

/-- What `timerfd_settime` was called with: to wake up after so many microseconds, or at once
for none, as the clock stood when they were computed. -/
structure Timeout where
  setAt : ℤ
  usec : ℤ

/-- `completed` are the waits whose handlers were posted to the scheduler, `abandoned` those
whose handlers were destroyed. -/
structure Reactor (τ ω : Type) where
  timerQueue : TimerQueue ℤ τ ω := {}
  shutdown : Bool := false
  timerFd : Option Timeout := none
  completed : List (ω × WaitResult) := []
  abandoned : List ω := []

namespace Reactor

/-- `timer_queues_.wait_duration_usec(5 * 60 * 1000 * 1000)` and `timerfd_settime`. -/
def updateTimeout (now : ℤ) (r : Reactor τ ω) : Reactor τ ω :=
  { r with timerFd := some ⟨now, r.timerQueue.waitDurationUsec (5 * 60 * 1000 * 1000) now⟩ }

def scheduleTimer (now time : ℤ) (timer : τ) (op : ω) (r : Reactor τ ω) : Reactor τ ω :=
  if r.shutdown then { r with completed := r.completed ++ [(op, .expired)] }
  else
    let earliest := r.timerQueue.enqueueTimer time timer op
    let r := { r with timerQueue := earliest.2 }
    if earliest.1 then updateTimeout now r else r

/-- With the number of waits that were cancelled. -/
def cancelTimer (timer : τ) (maxCancelled : Option ℕ) (r : Reactor τ ω) : ℕ × Reactor τ ω :=
  let ops := r.timerQueue.cancelTimer timer maxCancelled
  (ops.1.length, { r with timerQueue := ops.2, completed := r.completed ++ ops.1 })

def cancelTimerByKey (cancellationKey : ω → κ) (timer : τ) (k : κ) (r : Reactor τ ω) :
    Reactor τ ω :=
  let ops := r.timerQueue.cancelTimerByKey cancellationKey timer k
  { r with timerQueue := ops.2, completed := r.completed ++ ops.1 }

def moveTimer (target source : τ) (r : Reactor τ ω) : Reactor τ ω :=
  let r := (cancelTimer target none r).2
  { r with timerQueue := r.timerQueue.moveTimer target source }

/-- `run` where the timer descriptor was readable. It reads the clock twice. -/
def run (now later : ℤ) (r : Reactor τ ω) : Reactor τ ω :=
  let ops := r.timerQueue.getReadyTimers now
  updateTimeout later { r with timerQueue := ops.2, completed := r.completed ++ ops.1 }

def close (r : Reactor τ ω) : Reactor τ ω :=
  let ops := r.timerQueue.getAllTimers
  { r with shutdown := true, timerQueue := ops.2, abandoned := r.abandoned ++ ops.1 }

inductive Event (τ ω κ : Type) where
  | schedule (now time : ℤ) (timer : τ) (op : ω)
  | cancel (timer : τ) (maxCancelled : Option ℕ)
  | cancelByKey (timer : τ) (k : κ)
  | move (target source : τ)
  | run (now later : ℤ)
  | close

def step (cancellationKey : ω → κ) (r : Reactor τ ω) : Event τ ω κ → Reactor τ ω
  | .schedule now time timer op => scheduleTimer now time timer op r
  | .cancel timer maxCancelled => (cancelTimer timer maxCancelled r).2
  | .cancelByKey timer k => cancelTimerByKey cancellationKey timer k r
  | .move target source => moveTimer target source r
  | .run now later => run now later r
  | .close => close r

def after (cancellationKey : ω → κ) (es : List (Event τ ω κ)) : Reactor τ ω :=
  es.foldl (step cancellationKey) {}

end Reactor

/-- What the reactor is for: waits are outstanding until they end, are cancelled or abandoned. -/
structure Waits (τ ω : Type) where
  pending : Pending ℤ τ ω := fun _ => none
  shutdown : Bool := false
  completed : List (ω × WaitResult) := []
  abandoned : List ω := []

/-- The waits on the timers `due`, timer by timer. -/
def Pending.waitsOf {T : Type} (p : Pending T τ ω) (due : List (HeapEntry T τ)) : List ω :=
  due.flatMap fun entry => p.waits entry.timer

/-- Nothing is said of the order of timers that expire at the same time, or are abandoned. -/
inductive Waits.Step (cancellationKey : ω → κ) (w : Waits τ ω) :
    Reactor.Event τ ω κ → Waits τ ω → Prop
  | scheduled (hopen : w.shutdown = false) (now time : ℤ) (timer : τ) (op : ω) :
      Step cancellationKey w (.schedule now time timer op)
        { w with pending := w.pending.schedule time timer op }
  | refused (hclosed : w.shutdown = true) (now time : ℤ) (timer : τ) (op : ω) :
      Step cancellationKey w (.schedule now time timer op)
        { w with completed := w.completed ++ [(op, .expired)] }
  | cancelled (timer : τ) (maxCancelled : Option ℕ) (n : ℕ)
      (hn : n = maxCancelled.getD (w.pending.waits timer).length) :
      Step cancellationKey w (.cancel timer maxCancelled)
        { w with
          pending := w.pending.keep timer ((w.pending.waits timer).drop n)
          completed := w.completed ++
            ((w.pending.waits timer).take n).map fun op => (op, .operationAborted) }
  | cancelledByKey (timer : τ) (k : κ) : Step cancellationKey w (.cancelByKey timer k)
      { w with
        pending := w.pending.keep timer
          ((w.pending.waits timer).filter fun op => cancellationKey op ≠ k)
        completed := w.completed ++
          ((w.pending.waits timer).filter fun op => cancellationKey op = k).map
            fun op => (op, .operationAborted) }
  | moved (target source : τ) : Step cancellationKey w (.move target source)
      { w with
        pending := (w.pending.clear target).move target source
        completed := w.completed ++
          (w.pending.waits target).map fun op => (op, .operationAborted) }
  | ended (now later : ℤ) (due : List (HeapEntry ℤ τ)) (hdue : w.pending.Due now due) :
      Step cancellationKey w (.run now later)
        { w with
          pending := w.pending.after now
          completed := w.completed ++ (w.pending.waitsOf due).map fun op => (op, .expired) }
  | closed (l : List τ) (hl : l.Nodup) (hmem : ∀ t, t ∈ l ↔ w.pending t ≠ none) :
      Step cancellationKey w .close
        { w with
          pending := fun _ => none
          shutdown := true
          abandoned := w.abandoned ++ l.flatMap w.pending.waits }

/-- To go off at once, or less than a microsecond after `e`, counted from the reading of the clock
with which the timeout was set. -/
def Timeout.WakesBy (timeout : Timeout) (e : ℤ) : Prop :=
  timeout.usec = 0 ∨ timeout.setAt + timeout.usec * 1000 < e + 1000

/-- For every expiry the timer descriptor is armed, early enough or to go off at once. -/
def Timely (timerFd : Option Timeout) (p : Pending ℤ τ ω) : Prop :=
  ∀ t e, p.expiry t = some e → ∃ timeout, timerFd = some timeout ∧ timeout.WakesBy e

end AsioSamples.Asio
