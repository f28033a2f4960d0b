import Mathlib.Data.List.TakeDrop
import Mathlib.Tactic.Common

/-!
# Transfers over a reliable first-in first-out stream

A transfer cuts its source in three: what has arrived, what is in flight, and what is still
pending. Sending and receiving only move the two cuts, so nothing is lost, duplicated or
reordered, however the items are grouped.
-/

namespace Framework

/-- The first `sent` items of `source` have left the sender, and the first `delivered` of
these have arrived. -/
structure Transfer (α : Type) where
  source : List α
  sent : ℕ
  delivered : ℕ
  delivered_le : delivered ≤ sent
  sent_le : sent ≤ source.length

namespace Transfer

variable {α : Type} (T : Transfer α)

def start (source : List α) : Transfer α := ⟨source, 0, 0, Nat.le_refl 0, Nat.zero_le _⟩

def gone : List α := T.source.take T.sent

def pending : List α := T.source.drop T.sent

def arrived : List α := T.source.take T.delivered

def inFlight : List α := T.gone.drop T.delivered

def send (k : ℕ) (h : k ≤ T.pending.length) : Transfer α where
  source := T.source
  sent := T.sent + k
  delivered := T.delivered
  delivered_le := Nat.le_add_right_of_le T.delivered_le
  sent_le := by
    have h1 := T.sent_le
    simp only [pending, List.length_drop] at h
    omega

def receive (k : ℕ) (h : k ≤ T.inFlight.length) : Transfer α where
  source := T.source
  sent := T.sent
  delivered := T.delivered + k
  delivered_le := by
    have h1 := T.delivered_le
    have h2 := T.sent_le
    simp only [inFlight, gone, List.length_drop, List.length_take] at h
    omega
  sent_le := T.sent_le

theorem gone_append_pending : T.gone ++ T.pending = T.source := List.take_append_drop _ _

theorem arrived_append_inFlight : T.arrived ++ T.inFlight = T.gone := by
  have h : T.arrived = T.gone.take T.delivered := by
    rw [arrived, gone, List.take_take, Nat.min_eq_left T.delivered_le]
  rw [h, inFlight, List.take_append_drop]

theorem arrived_length : T.arrived.length = T.delivered := by
  have h1 := T.delivered_le
  have h2 := T.sent_le
  simp only [arrived, List.length_take]
  omega

theorem inFlight_eq_drop : T.inFlight = T.gone.drop T.arrived.length := by
  rw [arrived_length, inFlight]

theorem send_gone (k : ℕ) (h : k ≤ T.pending.length) :
    (T.send k h).gone = T.gone ++ T.pending.take k := by
  simp only [gone, send, pending, List.take_add]

theorem send_pending (k : ℕ) (h : k ≤ T.pending.length) :
    (T.send k h).pending = T.pending.drop k := by
  simp only [pending, send, List.drop_drop]

theorem receive_arrived (k : ℕ) (h : k ≤ T.inFlight.length) :
    (T.receive k h).arrived = T.arrived ++ T.inFlight.take k := by
  have hk : T.delivered + k ≤ T.sent := (T.receive k h).delivered_le
  simp only [arrived, receive, inFlight, gone, List.take_add, List.drop_take, List.take_take]
  congr 2
  omega

theorem arrived_prefix : T.arrived <+: T.source := List.take_prefix _ _

/-- Everything has arrived once nothing is pending and nothing is in flight. -/
theorem arrived_eq_source (hp : T.pending = []) (hf : T.inFlight = []) : T.arrived = T.source := by
  have h1 := T.arrived_append_inFlight
  have h2 := T.gone_append_pending
  rw [hf, List.append_nil] at h1
  rw [hp, List.append_nil] at h2
  exact h1.trans h2

end Transfer

end Framework
