import AsioSamples.Asio.ReactorRuns
import AsioSamples.Framework.Machine

/-!
# The timers of a program

`deadline_timer_service` of `boost/asio/detail/deadline_timer_service.hpp`: what the members of
`steady_timer` do. A timer remembers its expiry, and whether it may have waits outstanding, so
that cancelling need not ask the reactor.
-/

namespace AsioSamples.Asio

open Framework

namespace ChronoTimeTraits

/-- `(time_type::max)()`. A time is a count of nanoseconds in 64 bits. -/
def timeMax : ℤ := 9223372036854775807

def timeMin : ℤ := -9223372036854775808

/-- A sum that no `time_type` can hold becomes the last or the first time. -/
def add (t d : ℤ) : ℤ :=
  if 0 ≤ t then
    if timeMax - t < d then timeMax else t + d
  else
    if d < -(t - timeMin) then timeMin else t + d

theorem add_eq {t d : ℤ} (hd : 0 ≤ d) (hmax : d ≤ timeMax) :
    add t d = max timeMin (min timeMax (t + d)) := by
  have hzero : timeMin ≤ 0 ∧ 0 ≤ timeMax := by decide
  rw [add]
  by_cases ht : 0 ≤ t
  · rw [if_pos ht]
    split <;> omega
  · rw [if_neg ht]
    split <;> omega

/-- Two times come no further apart when they are put off by the same duration. -/
theorem add_lt_add {t u d e : ℤ} (hd : 0 ≤ d) (hmax : d ≤ timeMax) (he : 0 < e)
    (h : t < u + e) : add t d < add u d + e := by
  rw [add_eq hd hmax, add_eq hd hmax]
  omega

end ChronoTimeTraits

variable {τ ω : Type} [DecidableEq τ]

/-- `implementation_type`. Its `timer_data` lies in the queue. -/
structure Implementation where
  expiry : ℤ := 0
  mightHavePendingWaits : Bool := false
  deriving DecidableEq

/-- The service with the timers of the program, of which those in `alive` exist. -/
structure TimerService (τ ω : Type) where
  reactor : Reactor τ ω := {}
  impl : τ → Implementation := fun _ => {}
  alive : τ → Bool := fun _ => false

namespace TimerService

def setImpl (timer : τ) (impl : Implementation) (s : TimerService τ ω) : TimerService τ ω :=
  { s with impl := Function.update s.impl timer impl }

/-- An object is made where there was none, with its `timer_data`. -/
def create (timer : τ) (s : TimerService τ ω) : TimerService τ ω :=
  { s with
    reactor := { s.reactor with timerQueue := s.reactor.timerQueue.initTimer timer }
    alive := Function.update s.alive timer true }

def construct (timer : τ) (s : TimerService τ ω) : TimerService τ ω :=
  setImpl timer { expiry := 0, mightHavePendingWaits := false } (create timer s)

/-- With the number of waits that were cancelled. -/
def cancel (timer : τ) (s : TimerService τ ω) : ℕ × TimerService τ ω :=
  if (s.impl timer).mightHavePendingWaits then
    let count := s.reactor.cancelTimer timer none
    (count.1, setImpl timer { s.impl timer with mightHavePendingWaits := false }
      { s with reactor := count.2 })
  else (0, s)

def cancelOne (timer : τ) (s : TimerService τ ω) : ℕ × TimerService τ ω :=
  if (s.impl timer).mightHavePendingWaits then
    let count := s.reactor.cancelTimer timer (some 1)
    let s := { s with reactor := count.2 }
    (count.1, if count.1 = 0 then
      setImpl timer { s.impl timer with mightHavePendingWaits := false } s else s)
  else (0, s)

def destroy (timer : τ) (s : TimerService τ ω) : TimerService τ ω :=
  let s := (cancel timer s).2
  { s with alive := Function.update s.alive timer false }

/-- What `move_construct` and `move_assign` do to two timers of one service. -/
def moveFrom (target source : τ) (s : TimerService τ ω) : TimerService τ ω :=
  let s := { s with reactor := s.reactor.moveTimer target source }
  setImpl source { expiry := 0, mightHavePendingWaits := false }
    (setImpl target (s.impl source) s)

def moveConstruct (target source : τ) (s : TimerService τ ω) : TimerService τ ω :=
  moveFrom target source (create target s)

def expiresAt (timer : τ) (expiryTime : ℤ) (s : TimerService τ ω) : ℕ × TimerService τ ω :=
  let count := cancel timer s
  (count.1, setImpl timer { count.2.impl timer with expiry := expiryTime } count.2)

def expiresAfter (now : ℤ) (timer : τ) (expiryTime : ℤ) (s : TimerService τ ω) :
    ℕ × TimerService τ ω := expiresAt timer (ChronoTimeTraits.add now expiryTime) s

def asyncWait [DecidableEq ω] (now : ℤ) (timer : τ) (op : ω) (s : TimerService τ ω) :
    TimerService τ ω :=
  let s := setImpl timer { s.impl timer with mightHavePendingWaits := true } s
  { s with reactor := s.reactor.scheduleTimer now (s.impl timer).expiry timer op }

/-- What a program does with its timers, and what happens meanwhile in the reactor. -/
inductive Call (τ ω : Type) where
  | construct (timer : τ)
  | moveConstruct (target source : τ)
  | moveAssign (target source : τ)
  | destroy (timer : τ)
  | cancel (timer : τ)
  | cancelOne (timer : τ)
  | expiresAt (timer : τ) (expiryTime : ℤ)
  | expiresAfter (now : ℤ) (timer : τ) (expiryTime : ℤ)
  | asyncWait (now : ℤ) (timer : τ) (op : ω)
  | run (now later : ℤ)
  | shutdown

variable [DecidableEq ω]

/-- Only timers that exist can be used, and only where there is none one can be made. -/
def step (s : TimerService τ ω) : Call τ ω → Option (TimerService τ ω)
  | .construct timer => if s.alive timer then none else some (construct timer s)
  | .moveConstruct target source =>
    if ¬ s.alive target ∧ s.alive source then some (moveConstruct target source s) else none
  | .moveAssign target source =>
    if s.alive target ∧ s.alive source then
      some (if target = source then s else moveFrom target source s)
    else none
  | .destroy timer => if s.alive timer then some (destroy timer s) else none
  | .cancel timer => if s.alive timer then some (cancel timer s).2 else none
  | .cancelOne timer => if s.alive timer then some (cancelOne timer s).2 else none
  | .expiresAt timer expiryTime =>
    if s.alive timer then some (expiresAt timer expiryTime s).2 else none
  | .expiresAfter now timer expiryTime =>
    if s.alive timer then some (expiresAfter now timer expiryTime s).2 else none
  | .asyncWait now timer op => if s.alive timer then some (asyncWait now timer op s) else none
  | .run now later => some { s with reactor := s.reactor.run now later }
  | .shutdown => some { s with reactor := s.reactor.close }

def timerService : Machine (TimerService τ ω) (Call τ ω) where
  init := {}
  step := step

end TimerService

end AsioSamples.Asio
