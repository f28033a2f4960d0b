import AsioSamples.Asio.TimerServiceRuns
import AsioSamples.Timer.PrinterBalance

/-!
# The printer on its timer service

The same program, down to the timers themselves. `timer_list_` is a vector, so its timers move
to other addresses when it grows, with their waits. One thread calls `io.run()`: it takes the
handlers that the reactor has posted one after another, and each of them calls `print`.
-/

namespace AsioSamples.Printer

open Framework Asio

/-- A block of memory and a place in it. -/
abbrev Address : Type := ℕ × ℕ

/-- `reallocates i` says whether the vector needs a new block for its element `i`, and `armed i`
is the clock when the first wait on it starts. -/
structure AsioConfig extends Config where
  reallocates : ℕ → Bool
  armed : ℕ → ℤ

/-- `timer_list_` holds `size` timers in the block `block`. Of the handlers that were posted
`handled` have run. A handler is known by the number that it was bound to. -/
structure AsioState where
  service : TimerService Address ℕ := {}
  block : ℕ := 0
  size : ℕ := 0
  handled : ℕ := 0
  count : ℤ := 0
  lines : List Line := []

namespace AsioState

def posted (a : AsioState) : List ℕ :=
  (a.service.reactor.completed.drop a.handled).map Prod.fst

/-- The elements move to another block, and then the old ones are destroyed. -/
def relocate (a : AsioState) (block : ℕ) (service : TimerService Address ℕ) :
    TimerService Address ℕ :=
  let service := (List.range a.size).foldl
    (fun service i => service.moveConstruct (block, i) (a.block, i)) service
  (List.range a.size).foldl (fun service i => service.destroy (a.block, i)) service

/-- `timer_list_.emplace_back(io, std::chrono::seconds(1))`. In a new block the new element is
made before the others move. -/
def emplaceBack (reallocates : Bool) (now : ℤ) (a : AsioState) : AsioState :=
  let block := if reallocates then a.block + 1 else a.block
  let service := a.service.construct (block, a.size)
  let service := (service.expiresAfter now (block, a.size) second).2
  { a with
    service := if reallocates then a.relocate block service else service
    block := block
    size := a.size + 1 }

def asyncWait (now : ℤ) (number : ℕ) (a : AsioState) : AsioState :=
  { a with service := a.service.asyncWait now (a.block, number) number }

/-- `timer_list_[number].expires_at(timer_list_[number].expiry() + std::chrono::seconds(1))`. -/
def expiresLater (number : ℕ) (a : AsioState) : AsioState :=
  let timer := (a.block, number)
  { a with service := (a.service.expiresAt timer ((a.service.impl timer).expiry + second)).2 }

def print (C : AsioConfig) (now : ℤ) (number : ℕ) (a : AsioState) : AsioState :=
  if a.count < (C.totalTimerCountMax : ℤ) then
    let a := { a with count := a.count + 1 }
    let a := { a with lines := a.lines ++ [⟨number + 1, a.count⟩] }
    asyncWait now number (expiresLater number a)
  else a

/-- The loop of the constructor. -/
def construct (C : AsioConfig) : AsioState :=
  (List.range C.timerNumber).foldl
    (fun a i => asyncWait (C.armed i) i (emplaceBack (C.reallocates i) (C.now i) a)) {}

inductive Event where
  | poll (now later : ℤ)
  | handle (now : ℤ)

/-- What `io.run()` does: it lets the reactor look for timers that have expired, or runs the next
handler. -/
def step (C : AsioConfig) (a : AsioState) : Event → Option AsioState
  | .poll now later =>
    some { a with service := { a.service with reactor := a.service.reactor.run now later } }
  | .handle now =>
    match a.posted with
    | [] => none
    | number :: _ => some (print C now number { a with handled := a.handled + 1 })

def printer (C : AsioConfig) : Machine AsioState Event where
  init := construct C
  step := step C

end AsioState

end AsioSamples.Printer
