import AsioSamples.Framework.Machine
import Mathlib.Data.Int.Order.Basic
import Mathlib.Data.List.Basic

/-!
# The printer with a shared counter

`Printer` of `synchronisingCompletionHandlersInMultithreadedPrograms` in
`basic_sample/basic_sample.h`: several timers count together up to a total. A wait that
completes puts its handler on the strand, which runs one `print` after another in the order
of their coming. Times are in nanoseconds.
-/

namespace AsioSamples.Printer

open Framework

/-- `std::chrono::seconds(1)`. -/
def second : ℤ := 1000000000

/-- The arguments of the constructor, and the clock when it creates each timer. -/
structure Config where
  timerNumber : ℕ
  totalTimerCountMax : ℕ
  now : ℕ → ℤ

/-- A line `Timer<timer>: <count>` of `print`. -/
structure Line where
  timer : ℕ
  count : ℤ
  deriving DecidableEq

/-- `expiry` are the expiries of `timer_list_`, of which there are `timers`. A wait on a timer
calls `print` with the number of this timer, so `waits`, those that have not completed, and
`strand`, the handlers to run, are lists of such numbers. `calls` counts the calls of `print`,
`idle` those that found the total reached, and `cancelled` the waits that were cancelled. -/
structure State where
  count : ℤ := 0
  timers : ℕ := 0
  expiry : ℕ → ℤ := fun _ => 0
  waits : List ℕ := []
  strand : List ℕ := []
  lines : List Line := []
  calls : ℕ := 0
  idle : ℕ := 0
  cancelled : ℕ := 0

inductive Event where
  | expire (k : ℕ)
  | run

def State.outstanding (s : State) : List ℕ := s.strand ++ s.waits

/-- `timer_list_.emplace_back(io, std::chrono::seconds(1))`. -/
def emplaceBack (now : ℤ) (s : State) : State :=
  { s with expiry := Function.update s.expiry s.timers (now + second), timers := s.timers + 1 }

/-- `timer_list_[number].async_wait(bind_executor(strand_, bind(&Printer::print, this, …)))`. -/
def asyncWait (number : ℕ) (s : State) : State := { s with waits := s.waits ++ [number] }

/-- All waits on a timer complete, by expiry or by cancellation. -/
def completeWaits (k : ℕ) (s : State) : State :=
  { s with
    waits := s.waits.filter fun j => decide (j ≠ k)
    strand := s.strand ++ s.waits.filter fun j => decide (j = k) }

/-- `timer_list_[number].expires_at(time)` cancels the waits on the timer. -/
def expiresAt (number : ℕ) (time : ℤ) (s : State) : State :=
  { completeWaits number s with
    expiry := Function.update s.expiry number time
    cancelled := s.cancelled + (s.waits.filter fun j => decide (j = number)).length }

def print (C : Config) (number : ℕ) (s : State) : State :=
  let s := { s with calls := s.calls + 1 }
  if s.count < (C.totalTimerCountMax : ℤ) then
    let s := { s with count := s.count + 1 }
    let s := { s with lines := s.lines ++ [⟨number + 1, s.count⟩] }
    asyncWait number (expiresAt number (s.expiry number + second) s)
  else { s with idle := s.idle + 1 }

/-- The loop of the constructor; `back()` is the timer that was just created. -/
def construct (C : Config) : State :=
  (List.range C.timerNumber).foldl (fun s i => asyncWait i (emplaceBack (C.now i) s)) {}

/-- What `io.run()` does: a timer expires, or the strand runs its next handler. -/
def step (C : Config) (s : State) : Event → Option State
  | .expire k => if k ∈ s.waits then some (completeWaits k s) else none
  | .run =>
    match s.strand with
    | [] => none
    | number :: rest => some (print C number { s with strand := rest })

def printer (C : Config) : Machine State Event where
  init := construct C
  step := step C

theorem construct_eq (C : Config) : ∃ expiry : ℕ → ℤ,
    (∀ k, k < C.timerNumber → expiry k = C.now k + second) ∧
      construct C = { timers := C.timerNumber, expiry := expiry,
                      waits := List.range C.timerNumber } := by
  unfold construct
  induction C.timerNumber with
  | zero => exact ⟨fun _ => 0, by simp, rfl⟩
  | succ n ih =>
      obtain ⟨expiry, hexp, hn⟩ := ih
      refine ⟨Function.update expiry n (C.now n + second), ?_, ?_⟩
      · intro k hk
        by_cases hkn : k = n
        · simp [hkn]
        · simpa [hkn] using hexp k (by omega)
      · rw [List.range_succ, List.foldl_append, hn]
        rfl

end AsioSamples.Printer
