import AsioSamples.Tcp.AsyncSteps
import AsioSamples.Tcp.SyncSteps

/-!
# Which clients stop a TCP server

Both servers call socket functions that throw, and neither catches before it is ready for the
next client: in the asynchronous one the exception leaves `io_context.run()`, in the
synchronous one it leaves the loop. So a server survives only the clients none of whose
calls on its path fail. The asynchronous one must besides never complete a transfer that took
only a part of a message, for the next one would use a socket that no longer exists.
-/

namespace AsioSamples.TcpServer

open Framework

/-- The server waits for the next client: one `async_accept` is outstanding, and
`io_context.run()` has neither been left nor run into undefined behaviour. -/
def Waiting (s : State) : Prop := s.undefined = false ∧ s.left = none ∧ s.accepting.length = 1

/-- An accept that succeeds is one of a client none of whose calls in `addressRequest` throws,
and a transfer that completes took the rest of its message, or nothing. A failing write does not
throw: its error goes to `handleWrite`. -/
structure Harmless (s : State) (e : Event) : Prop where
  accept : ∀ a, e = .accept (.ok a) →
    a.client.queryFailure = none ∧ a.client.closingFailure = none
  transfer : ∀ i w, e = .writeComplete i → s.writes[i]? = some w → ¬ w.Continues

theorem harmless_accept {s : State} {o : Except ErrorCode Accepted} :
    Harmless s (.accept o) ↔
      ∀ a, o = .ok a → a.client.queryFailure = none ∧ a.client.closingFailure = none := by
  constructor
  · intro h a ha
    exact h.accept a (by rw [ha])
  · intro h
    exact ⟨fun a ha => h a (Event.accept.inj ha), fun i w he => by cases he⟩

theorem harmless_writeComplete {s : State} {i : ℕ} {w : Write} (hw : s.writes[i]? = some w) :
    Harmless s (.writeComplete i) ↔ ¬ w.Continues := by
  constructor
  · intro h
    exact h.transfer i w rfl hw
  · intro h
    refine ⟨fun a ha => (by cases ha), fun j v hj hv => ?_⟩
    obtain rfl : i = j := Event.writeComplete.inj hj
    obtain rfl : w = v := Option.some.inj (hw.symm.trans hv)
    exact h

theorem waiting_step {C : Config} {s t : State} {e : Event} (hI : Inv s) (hs : Waiting s)
    (h : step C s e = some t) : Waiting t ↔ Harmless s e := by
  obtain ⟨hdefined, hnone, hone⟩ := hs
  cases step_outcome hI h with
  | unserved o hleft => exact (hleft hnone).elim
  | rejected c e out hleft hacc hnew =>
      exact iff_of_true ⟨hdefined, hleft, rfl⟩ (harmless_accept.mpr fun _ ha => by cases ha)
  | query c a e out hleft hacc hnew hq =>
      refine iff_of_false (by simp [Waiting]) fun hC => ?_
      simpa [hq] using (harmless_accept.mp hC a rfl).1
  | closing c a e out hleft hacc hnew hq hcl =>
      refine iff_of_false (by simp [Waiting]) fun hC => ?_
      simpa [hcl] using (harmless_accept.mp hC a rfl).2
  | served c a out hleft hacc hnew hq hcl =>
      refine iff_of_true ⟨hdefined, hleft, rfl⟩ (harmless_accept.mpr fun a' ha' => ?_)
      obtain rfl : a = a' := Except.ok.inj ha'
      exact ⟨hq, hcl⟩
  | complete i w hleft hw hend =>
      exact iff_of_true ⟨hdefined, hnone, hone⟩ ((harmless_writeComplete hw).mpr hend)
  | dangling i w hleft hw hcont =>
      exact iff_of_false (by simp [Waiting]) fun hC => (harmless_writeComplete hw).mp hC hcont

theorem waiting_throughout_iff (C : Config) (es : List Event) :
    (server C).Throughout Waiting (server C).init es ↔
      (server C).AllSteps Harmless (server C).init es := by
  refine Machine.throughout_iff_allSteps (inv_preserved C)
    (fun s e t hI hs h => waiting_step hI hs h) (inv_init C) ?_
  rw [server_init]
  exact ⟨rfl, rfl, rfl⟩

end AsioSamples.TcpServer

namespace AsioSamples.SyncTcpServer

open Framework

/-- Every client so far has been served: the control is not in the middle of the loop body. -/
def Finished (s : State) : Prop :=
  match s.control with
  | .writing _ _ => False
  | _ => True

/-- The control is inside the loop, and if it is in a write, the write is not going to fail. -/
def Alive (s : State) : Prop :=
  match s.control with
  | .accepting => True
  | .writing client _ => client.fails .write = none
  | .exited _ => False

/-- The accept succeeds, and neither an endpoint query of the loop body nor the write fails;
the local endpoint matters for the first client only. -/
def Harmless (s : State) (e : Event) : Prop :=
  ∀ o, e = .accept o → ∃ client, o = .ok client ∧ loopFailure s.first client = none ∧
    client.fails .write = none

private theorem alive_step {C : Config} {s t : State} {e : Event} (hs : Alive s)
    (h : step C s e = some t) : Alive t ↔ Harmless s e := by
  cases step_outcome h with
  | unserved o e hctl => simp [Alive, hctl] at hs
  | rejected e hctl =>
      refine iff_of_false (by simp [Alive, exit]) fun hC => ?_
      obtain ⟨client, ho, -⟩ := hC _ rfl
      simp at ho
  | query client e out first hctl hq =>
      refine iff_of_false (by simp [Alive, exit]) fun hC => ?_
      obtain ⟨client', ho, hq', -⟩ := hC _ rfl
      obtain rfl : client = client' := by simpa using ho
      simp [hq] at hq'
  | taken client out hctl hq =>
      constructor
      · intro ht o ho
        obtain rfl : .ok client = o := by simpa using ho
        exact ⟨client, rfl, hq, ht⟩
      · intro hC
        obtain ⟨client', ho, -, hw⟩ := hC _ rfl
        obtain rfl : client = client' := by simpa using ho
        exact hw
  | sent client rest k hctl hpos hk =>
      refine iff_of_true ?_ fun _ ho => by simp at ho
      simpa [Alive, hctl] using hs
  | returned client out hctl hw =>
      exact iff_of_true trivial fun _ ho => by simp at ho
  | thrown client rest e hctl hw =>
      simp [Alive, hctl, hw] at hs

/-- A server that has left the loop, or whose write is going to fail, never comes back. -/
private theorem dead_step {C : Config} {s t : State} {e : Event} (hs : ¬ Alive s)
    (h : step C s e = some t) : ¬ Alive t := by
  cases step_outcome h with
  | unserved o e hctl => exact hs
  | rejected e hctl => simp [Alive, hctl] at hs
  | query client e out first hctl hq => simp [Alive, hctl] at hs
  | taken client out hctl hq => simp [Alive, hctl] at hs
  | sent client rest k hctl hpos hk => simpa [Alive, hctl] using hs
  | returned client out hctl hw => simp [Alive, hctl, hw] at hs
  | thrown client rest e hctl hw => simp [Alive, exit]

private theorem accepting_iff_alive {s : State} (hs : Finished s) :
    s.control = .accepting ↔ Alive s := by
  cases hctl : s.control with
  | accepting => simp [Alive, hctl]
  | writing client rest => simp [Finished, hctl] at hs
  | exited e => simp [Alive, hctl]

theorem accepting_iff_harmless (C : Config) {es : List Event} {s : State}
    (hr : (server C).run es = some s) (hs : Finished s) :
    s.control = .accepting ↔ (server C).AllSteps Harmless (server C).init es := by
  rw [accepting_iff_alive hs]
  exact Machine.last_iff_allSteps (I := fun _ => True) (fun _ _ _ _ _ => trivial)
    (fun s e t _ hs h => alive_step hs h) (fun s e t _ hs h => dead_step hs h)
    trivial trivial hr

end AsioSamples.SyncTcpServer

namespace AsioSamples

/-- After every sequence of clients both TCP servers wait for the next one, exactly when no
call on the way from an accept to the next accept fails and the asynchronous server completes no
transfer of only a part of a message. -/
theorem tcp_servers_wait_iff_harmless (A : TcpServer.Config) (S : SyncTcpServer.Config)
    (es : List TcpServer.Event) (fs : List SyncTcpServer.Event) {s : SyncTcpServer.State}
    (hr : (SyncTcpServer.server S).run fs = some s) (hs : SyncTcpServer.Finished s) :
    ((TcpServer.server A).Throughout TcpServer.Waiting (TcpServer.server A).init es ↔
        (TcpServer.server A).AllSteps TcpServer.Harmless (TcpServer.server A).init es) ∧
      (s.control = .accepting ↔ (SyncTcpServer.server S).AllSteps SyncTcpServer.Harmless
        (SyncTcpServer.server S).init fs) :=
  ⟨TcpServer.waiting_throughout_iff A es, SyncTcpServer.accepting_iff_harmless S hr hs⟩

/-- A client that both servers serve to its end, its write included. -/
theorem tcp_servers_wait_after_steady_client :
    (TcpServer.server (.daytime fun _ => [77, 111, 110])).AllSteps TcpServer.Harmless
        (TcpServer.server (.daytime fun _ => [77, 111, 110])).init
        [.accept (.ok ⟨.steady 50000, [3]⟩), .writeComplete 0] ∧
      (SyncTcpServer.server (.daytime fun _ => [77, 111, 110])).AllSteps SyncTcpServer.Harmless
        (SyncTcpServer.server (.daytime fun _ => [77, 111, 110])).init
        [.accept (.ok (.steady 50000)), .writeSome 2, .writeSome 1, .writeReturn] := by
  have h := tcp_servers_wait_iff_harmless (.daytime fun _ => [77, 111, 110])
    (.daytime fun _ => [77, 111, 110]) [.accept (.ok ⟨.steady 50000, [3]⟩), .writeComplete 0]
    [.accept (.ok (.steady 50000)), .writeSome 2, .writeSome 1, .writeReturn] rfl trivial
  refine ⟨h.1.mp ⟨⟨rfl, rfl, rfl⟩, fun t ht => ?_⟩, h.2.mp rfl⟩
  obtain rfl := Option.some.inj ht
  refine ⟨⟨rfl, rfl, rfl⟩, fun u hu => ?_⟩
  obtain rfl := Option.some.inj hu
  exact ⟨rfl, rfl, rfl⟩

/-- A client that is gone when its endpoint is asked for stops both servers. -/
theorem gone_client_stops_tcp_servers :
    ¬ (TcpServer.server (.daytime fun _ => [77, 111, 110])).Throughout TcpServer.Waiting
      (TcpServer.server (.daytime fun _ => [77, 111, 110])).init
      [.accept (.ok ⟨.gone 50000, []⟩)] ∧
    ∃ s, (SyncTcpServer.server (.daytime fun _ => [77, 111, 110])).run
      [.accept (.ok (.gone 50000))] = some s ∧
      s.control = .exited (.system 107 "Transport endpoint is not connected") := by
  refine ⟨?_, _, rfl, rfl⟩
  intro h
  exact absurd (h.last rfl).2.2 (by decide)

end AsioSamples
