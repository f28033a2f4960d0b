import AsioSamples.Framework.HeapOrder
import AsioSamples.Framework.LinkedList
import Mathlib.Order.WithBot

/-!
# The timer queue

`timer_queue` of `boost/asio/detail/timer_queue.hpp`, which holds the outstanding waits of all
steady timers. The expiry times lie in a binary heap whose entries and timers point to each
other, the timers with outstanding waits form a doubly linked list, and each timer has a queue
of its waits.
-/

namespace AsioSamples.Asio

open Framework

/-- What `ec_` of a wait says when its handler is called. -/
inductive WaitResult where
  | expired
  | operationAborted
  deriving DecidableEq

structure HeapEntry (T τ : Type) where
  time : T
  timer : τ
  deriving DecidableEq

/-- `timers_` with the pointers of the timers in `links`, and `per_timer_data` by its fields.
The largest `size_t` as a `heap_index_` is `none`. -/
structure TimerQueue (T τ ω : Type) where
  links : Links τ := {}
  opQueue : τ → List ω := fun _ => []
  heapIndex : τ → Option ℕ := fun _ => none
  heap : List (HeapEntry T τ) := []

namespace TimerQueue

variable {T τ ω κ : Type}

def key (q : TimerQueue T τ ω) (i : ℕ) : WithTop T :=
  match q.heap[i]? with
  | some entry => entry.time
  | none => ⊤

variable [DecidableEq τ]

def initTimer (timer : τ) (q : TimerQueue T τ ω) : TimerQueue T τ ω :=
  { q with
    opQueue := Function.update q.opQueue timer []
    heapIndex := Function.update q.heapIndex timer none
    links := (q.links.setNext timer none).setPrev timer none }

def swapHeap (index1 index2 : ℕ) (q : TimerQueue T τ ω) : TimerQueue T τ ω :=
  match q.heap[index1]?, q.heap[index2]? with
  | some tmp, some entry =>
    { q with
      heap := (q.heap.set index1 entry).set index2 tmp
      heapIndex := Function.update (Function.update q.heapIndex entry.timer (some index1))
        tmp.timer (some index2) }
  | _, _ => q

theorem swapHeap_length (i j : ℕ) (q : TimerQueue T τ ω) :
    (swapHeap i j q).heap.length = q.heap.length := by
  unfold swapHeap
  split <;> simp

/-- `timer.heap_index_ = heap_.size()` and `heap_.push_back`. -/
def pushBack (time : T) (timer : τ) (q : TimerQueue T τ ω) : TimerQueue T τ ω :=
  { q with
    heapIndex := Function.update q.heapIndex timer (some q.heap.length)
    heap := q.heap ++ [⟨time, timer⟩] }

/-- `timer.heap_index_ = max` and `heap_.pop_back()`. -/
def popBack (timer : τ) (q : TimerQueue T τ ω) : TimerQueue T τ ω :=
  { q with heapIndex := Function.update q.heapIndex timer none, heap := q.heap.dropLast }

variable [LinearOrder T] [DecidableEq ω] [DecidableEq κ]

def upHeap (index : ℕ) (q : TimerQueue T τ ω) : TimerQueue T τ ω :=
  if 0 < index then
    if q.key index < q.key (parent index) then
      upHeap (parent index) (swapHeap index (parent index) q)
    else q
  else q
termination_by index
decreasing_by exact parent_lt ‹_›

/-- The child of `index` that `down_heap` compares with. -/
def minChild (index : ℕ) (q : TimerQueue T τ ω) : ℕ :=
  let child := index * 2 + 1
  if child + 1 = q.heap.length ∨ q.key child < q.key (child + 1) then child else child + 1

def downHeap (index : ℕ) (q : TimerQueue T τ ω) : TimerQueue T τ ω :=
  if index * 2 + 1 < q.heap.length then
    if q.key index < q.key (minChild index q) then q
    else downHeap (minChild index q) (swapHeap index (minChild index q) q)
  else q
termination_by q.heap.length - index
decreasing_by
  rw [swapHeap_length]
  simp only [minChild]
  split <;> omega

def removeFromHeap (timer : τ) (q : TimerQueue T τ ω) : TimerQueue T τ ω :=
  match q.heapIndex timer with
  | none => q
  | some index =>
    if index < q.heap.length then
      if index = q.heap.length - 1 then popBack timer q
      else
        let q := popBack timer (swapHeap index (q.heap.length - 1) q)
        if 0 < index ∧ q.key index < q.key (parent index) then upHeap index q
        else downHeap index q
    else q

def removeTimer (timer : τ) (q : TimerQueue T τ ω) : TimerQueue T τ ω :=
  let q := removeFromHeap timer q
  { q with links := q.links.remove timer }

/-- `timer.prev_ != 0 || &timer == timers_`. -/
def Active (timer : τ) (q : TimerQueue T τ ω) : Prop :=
  q.links.prev timer ≠ none ∨ q.links.head = some timer

instance (timer : τ) (q : TimerQueue T τ ω) : Decidable (q.Active timer) :=
  inferInstanceAs (Decidable (_ ∨ _))

/-- What `enqueue_timer` does for a timer that is not in the list yet. -/
def activate (time : T) (timer : τ) (q : TimerQueue T τ ω) : TimerQueue T τ ω :=
  let q := pushBack time timer q
  let q := upHeap (q.heap.length - 1) q
  { q with links := q.links.pushFront timer }

/-- Whether the new wait is the first one to expire comes with the queue. -/
def enqueueTimer (time : T) (timer : τ) (op : ω) (q : TimerQueue T τ ω) :
    Bool × TimerQueue T τ ω :=
  let q := if q.Active timer then q else activate time timer q
  let q := { q with opQueue := Function.update q.opQueue timer (q.opQueue timer ++ [op]) }
  (decide (q.heapIndex timer = some 0 ∧ (q.opQueue timer).head? = some op), q)

def isEmpty (q : TimerQueue T τ ω) : Bool := q.links.head.isNone

/-- The loop of `get_ready_timers`. Each turn takes one entry from the heap. -/
def readyLoop (now : T) : ℕ → TimerQueue T τ ω → List (ω × WaitResult) × TimerQueue T τ ω
  | 0, q => ([], q)
  | n + 1, q =>
    match q.heap with
    | [] => ([], q)
    | entry :: _ =>
      if now < entry.time then ([], q)
      else
        let ops := (q.opQueue entry.timer).map fun op => (op, .expired)
        let q := { q with opQueue := Function.update q.opQueue entry.timer [] }
        let r := readyLoop now n (removeTimer entry.timer q)
        (ops ++ r.1, r.2)

def getReadyTimers (now : T) (q : TimerQueue T τ ω) :
    List (ω × WaitResult) × TimerQueue T τ ω :=
  readyLoop now q.heap.length q

/-- The loop of `get_all_timers`, with at most `n` turns. -/
def allLoop : ℕ → TimerQueue T τ ω → List ω × TimerQueue T τ ω
  | 0, q => ([], q)
  | n + 1, q =>
    match q.links.head with
    | none => ([], q)
    | some timer =>
      let ops := q.opQueue timer
      let r := allLoop n { q with
        links := q.links.popFront timer
        opQueue := Function.update q.opQueue timer [] }
      (ops ++ r.1, r.2)

def getAllTimers (q : TimerQueue T τ ω) : List ω × TimerQueue T τ ω :=
  let r := allLoop q.heap.length q
  (r.1, { r.2 with heap := [] })

/-- `max_cancelled` is `none` where the caller leaves it at the largest `size_t`. -/
def cancelTimer (timer : τ) (maxCancelled : Option ℕ) (q : TimerQueue T τ ω) :
    List (ω × WaitResult) × TimerQueue T τ ω :=
  if q.Active timer then
    let n := maxCancelled.getD (q.opQueue timer).length
    let ops := ((q.opQueue timer).take n).map fun op => (op, .operationAborted)
    let q := { q with
      opQueue := Function.update q.opQueue timer ((q.opQueue timer).drop n) }
    (ops, if q.opQueue timer = [] then removeTimer timer q else q)
  else ([], q)

/-- `cancellationKey` is the field `cancellation_key_` of a wait. -/
def cancelTimerByKey (cancellationKey : ω → κ) (timer : τ) (k : κ) (q : TimerQueue T τ ω) :
    List (ω × WaitResult) × TimerQueue T τ ω :=
  if q.Active timer then
    let ops := (q.opQueue timer).filter fun op => cancellationKey op = k
    let otherOps := (q.opQueue timer).filter fun op => cancellationKey op ≠ k
    let q := { q with opQueue := Function.update q.opQueue timer otherOps }
    (ops.map fun op => (op, .operationAborted),
      if q.opQueue timer = [] then removeTimer timer q else q)
  else ([], q)

def moveTimer (target source : τ) (q : TimerQueue T τ ω) : TimerQueue T τ ω :=
  let opQueue := Function.update q.opQueue target (q.opQueue target ++ q.opQueue source)
  let heapIndex := Function.update q.heapIndex target (q.heapIndex source)
  let heapIndex := Function.update heapIndex source none
  { q with
    opQueue := Function.update opQueue source []
    heapIndex := heapIndex
    heap := match heapIndex target with
      | none => q.heap
      | some index => q.heap.modify index fun entry => { entry with timer := target }
    links := q.links.replace target source }

end TimerQueue

end AsioSamples.Asio
