import AsioSamples.Tcp.AsyncSteps

/-!
# How long the connections of the asynchronous TCP server live

The accept handler stores a `TcpPointer` and the write handler a plain `this`. So a
connection lives exactly as long as its accept is outstanding or being handled, and every
write that `addressRequest` starts is outstanding after its connection was destroyed.
-/

namespace AsioSamples.TcpServer

open Framework

/-- Every outstanding write has an owner that keeps its connection live, and every handler
that was invoked found its connection live. -/
def HandlersLive (s : State) : Prop :=
  (∀ w ∈ s.writes, 0 < (s.conns w.conn).owners) ∧ ∀ i ∈ s.invoked, i.2 = true

/-- The event starts no write: it is no accept, or one that is rejected, or one whose client
fails in an endpoint query. -/
def StartsNoWrite (s : State) (e : Event) : Prop :=
  ∀ a, e = .accept (.ok a) → s.left = none → a.client.queryFailure ≠ none

private theorem handlersLive_iff {s : State} (hI : Inv s) :
    HandlersLive s ↔ s.writes = [] ∧ ∀ i ∈ s.invoked, i.2 = true := by
  refine and_congr_left fun _ => ⟨?_, ?_⟩
  · intro h
    apply List.eq_nil_iff_forall_not_mem.mpr
    intro w hw
    have := h w hw
    have := hI.write_unowned hw
    omega
  · intro h w hw
    simp [h] at hw

private theorem invoked_append {l : List (ℕ × Bool)} (h : ∀ i ∈ l, i.2 = true) (c : ℕ) :
    ∀ i ∈ l ++ [(c, true)], i.2 = true := by
  intro i hi
  rcases List.mem_append.mp hi with hi | hi
  · exact h i hi
  · obtain rfl : i = (c, true) := by simpa using hi
    rfl

private theorem handlersLive_step {C : Config} {s t : State} {e : Event} (hI : Inv s)
    (hs : HandlersLive s) (h : step C s e = some t) : HandlersLive t ↔ StartsNoWrite s e := by
  have hIt := inv_preserved C s e t hI h
  rw [handlersLive_iff hIt]
  obtain ⟨hw, hinv⟩ := (handlersLive_iff hI).mp hs
  cases step_outcome hI h with
  | unserved o hleft =>
      exact iff_of_true ⟨hw, hinv⟩ fun _ _ hnone => absurd hnone hleft
  | rejected c e out hleft hacc hnew =>
      exact iff_of_true ⟨hw, invoked_append hinv c⟩ fun _ ha => by simp at ha
  | query c a e out hleft hacc hnew hq =>
      refine iff_of_true ⟨hw, invoked_append hinv c⟩ ?_
      intro a' ha' _
      obtain rfl : a = a' := by simpa using ha'
      simp [hq]
  | closing c a e out hleft hacc hnew hq hcl =>
      exact iff_of_false (by simp) fun hC => hC a rfl hleft hq
  | served c a out hleft hacc hnew hq hcl =>
      exact iff_of_false (by simp) fun hC => hC a rfl hleft hq
  | complete i w hleft hwi hend =>
      simp [hw] at hwi
  | dangling i w hleft hwi hcont =>
      simp [hw] at hwi

/-- The connections live long enough exactly in the runs that start no write at all. -/
theorem handlersLive_iff_startsNoWrite (C : Config) (es : List Event) :
    (server C).Throughout HandlersLive (server C).init es ↔
      (server C).AllSteps StartsNoWrite (server C).init es := by
  refine Machine.throughout_iff_allSteps (inv_preserved C)
    (fun s e t hI hs h => handlersLive_step hI hs h) (inv_init C) ?_
  rw [server_init]
  exact ⟨by simp, by simp⟩

/-- One accepted client is enough: its `handleWrite` runs on a destroyed connection. -/
theorem handleWrite_on_destroyed :
    ¬ (server (.daytime fun _ => [77, 111, 110])).Throughout HandlersLive
      (server (.daytime fun _ => [77, 111, 110])).init
      [.accept (.ok ⟨.steady 50000, [3]⟩), .writeComplete 0] := by
  intro h
  have hlast := (h.last rfl).2 (0, false)
  exact absurd (hlast (by decide)) (by decide)

/-- In every reachable state, a write that is still outstanding is one whose handler, if it is
invoked now, runs on a destroyed connection. -/
theorem reachable_writeComplete_dangling {C : Config} {s t : State} {i : ℕ}
    (hs : (server C).Reachable s) (h : (server C).step s (.writeComplete i) = some t) :
    ∃ c, t.invoked = s.invoked ++ [(c, false)] := by
  have hI := (inv_preserved C).reachable (inv_init C) hs
  have hstep : step C s (.writeComplete i) = some t := h
  cases step_outcome hI hstep with
  | complete i w hleft hw hend => exact ⟨w.conn, rfl⟩
  | dangling i w hleft hw hcont => exact ⟨w.conn, rfl⟩

end AsioSamples.TcpServer
